import QwerQ.Broker.Load

/-! Restarts, one after another, with nothing in between. Loading a queue goes
through the path that creates it, and creating it stores the configuration of a
new queue over the one that was read; so the settings survive one restart, and a
second one finds them gone. -/
namespace QwerQ
open Process

/-- What a restart meets: the limit of the new broker, the order in which the
configurations are visited and the delivery passes. -/
structure Restart where
  memoryLimit : UInt64
  order : List String
  env : Message → Env

def restarts : List Restart → World → Option World
  | [], w => some w
  | restart :: rest, w =>
      match (loadFromStorage restart.order restart.env).run (w.restarted restart.memoryLimit) with
      | (.ok none, w') => restarts rest w'
      | _ => none

def World.over (s : Storage) : World := ⟨Broker.new 0, ⟨true, s, fun _ => none⟩⟩

structure Settings where
  maxSize : Int
  maxRetries : UInt32
  failurePolicy : FailurePolicy
  deriving DecidableEq

def Queue.settings (q : Queue) : Settings := ⟨q.maxSize, q.maxRetries, q.failurePolicy⟩

structure Retention where
  maxAge : Duration
  maxBytes : Int
  deriving DecidableEq

def StreamQueue.retention (sq : StreamQueue) : Retention := ⟨sq.retentionMaxAge, sq.retentionMaxBytes⟩

def World.settings (name : String) (w : World) : Option Settings := (w.queue? name).map Queue.settings

def World.retention (name : String) (w : World) : Option Retention :=
  (w.stream? name).map StreamQueue.retention

def World.config (name : String) (w : World) : Option QueueConfig :=
  (w.disk.storage.queues.find? name).map Prod.snd

def Storage.Initial (s : Storage) : Prop :=
  ∀ name config, s.queues.find? name = some (name, config) → config = initialConfig name config.mode

theorem restarts_cons {w : World} (restart : Restart) (rest : List Restart) (hsound : w.disk.Sound) :
    ∃ w', restarts (restart :: rest) w = restarts rest w' ∧ Recovered w.disk.storage w' := by
  have ⟨w', hrun, hrecovered⟩ :=
    restarted_recovers restart.memoryLimit restart.order restart.env hsound
  refine ⟨w', ?_, hrecovered⟩
  rw [restarts, hrun]

theorem Recovered.configs_eq {s : Storage} {w : World} (h : Recovered s w) (hinitial : s.Initial)
    (name : String) : w.disk.storage.queues.find? name = s.queues.find? name := by
  rw [h.configs]
  cases hentry : s.queues.find? name with
  | none => rfl
  | some entry =>
    obtain ⟨other, config⟩ := entry
    obtain rfl : other = name := (KeyedMap.find?_eq_some_iff.mp hentry).2
    rw [Option.map_some, ← hinitial other config hentry]

theorem Recovered.again {s : Storage} {w w' : World} (h : Recovered s w) (hinitial : s.Initial)
    (hagain : Recovered w.disk.storage w') : Recovered s w' where
  sound := hagain.sound
  contents := by
    have hcontents := hagain.contents
    unfold Reconfigured at hcontents ⊢
    rw [hcontents, h.contents]
  queues name := by rw [hagain.queues, h.configs_eq hinitial, h.contents.loadedQueue?]
  streams name := by rw [hagain.streams, h.configs_eq hinitial, h.contents.loadedStream?]
  configs name := by rw [hagain.configs, h.configs_eq hinitial]

theorem Recovered.restarts {s : Storage} {w : World} (h : Recovered s w) (hinitial : s.Initial)
    (later : List Restart) : ∃ w', restarts later w = some w' ∧ Recovered s w' := by
  induction later generalizing w with
  | nil => exact ⟨w, rfl, h⟩
  | cons restart rest ih =>
    have ⟨next, hnext, hagain⟩ := restarts_cons restart rest h.sound
    rw [hnext]
    exact ih (h.again hinitial hagain)

/-- However often the broker is restarted, the stored configurations stay as they
are and the settings in effect are those after the first restart. -/
def KeepsSettings (s : Storage) : Prop :=
  ∀ (first : Restart) (later : List Restart), ∃ w w',
    restarts [first] (World.over s) = some w ∧
    restarts (first :: later) (World.over s) = some w' ∧
    ∀ name, w'.config name = (World.over s).config name ∧
      w'.settings name = w.settings name ∧ w'.retention name = w.retention name

/-- Restarting keeps the settings exactly when there are none to keep: every stored
configuration is that of a new queue or stream. -/
theorem keepsSettings_iff (s : Storage) : KeepsSettings s ↔ s.Initial := by
  have hsound : (World.over s).disk.Sound := ⟨rfl, rfl⟩
  constructor
  · intro hkeeps name config hentry
    have ⟨_, w', _, hlast, hsame⟩ := hkeeps ⟨0, [], fun _ => ⟨⟨0, []⟩, fun _ => ⟨0, []⟩⟩⟩ []
    have ⟨w, hfirst, hrecovered⟩ :=
      restarts_cons ⟨0, [], fun _ => ⟨⟨0, []⟩, fun _ => ⟨0, []⟩⟩⟩ [] hsound
    obtain rfl : w = w' := Option.some.inj (hfirst.symm.trans hlast)
    have hconfig := (hsame name).1
    rw [World.config, hrecovered.configs, World.config] at hconfig
    have hstored : (World.over s).disk.storage.queues.find? name = some (name, config) := hentry
    rw [hstored] at hconfig
    exact (Option.some.inj hconfig).symm
  · intro hinitial first later
    have ⟨w, hfirst, hrecovered⟩ := restarts_cons first [] hsound
    have ⟨next, hnext, hagain⟩ := restarts_cons first later hsound
    have ⟨w', hlast, hrecovered'⟩ := hagain.restarts hinitial later
    refine ⟨w, w', hfirst, hnext.trans hlast, fun name => ⟨?_, ?_, ?_⟩⟩
    · rw [World.config, hrecovered'.configs_eq hinitial, World.config]
    · rw [World.settings, hrecovered'.queues, World.settings, hrecovered.queues]
    · rw [World.retention, hrecovered'.streams, World.retention, hrecovered.streams]

def configuredStore : Storage :=
  Storage.empty.saveQueue "configured" ⟨17, false, 3, "drop", .unset, 0, 0⟩

/-- One restart keeps these settings in effect, a second one loses them. -/
theorem settings_lost_by_second_restart :
    ∃ restart : Restart,
      (restarts [restart] (World.over configuredStore)).bind (World.settings "configured") =
        some ⟨17, 3, .drop⟩ ∧
      (restarts [restart, restart] (World.over configuredStore)).bind (World.settings "configured") =
        some ⟨10000, 5, .dlq⟩ :=
  ⟨⟨0, [], fun _ => ⟨⟨0, []⟩, fun _ => ⟨0, []⟩⟩⟩, by decide, by decide⟩

end QwerQ
