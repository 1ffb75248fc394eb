import QwerQ.Group.Ready
import QwerQ.Queue.Ledger

/-! A queue as a finite map from id to body, and what each method does to it. A
queue without groups whose ids are distinct never panics and stays so. -/
namespace QwerQ.Queue
open List
variable {q q' : Queue} {id : String} {msg : Message} {body : Body}

def table (q : Queue) (id : String) : Option Body := q.ledger.find? fun body => body.id = id

theorem table_eq_some_iff (h : q.Distinct) :
    q.table id = some body ↔ body ∈ q.ledger ∧ body.id = id :=
  KeyedMap.find?_eq_some_iff_of_nodup h

theorem table_eq_none_iff : q.table id = none ↔ id ∉ q.ledger.map Body.id := by
  simp [table, find?_eq_none]

theorem table_of_perm (h : q.Distinct) (hperm : q'.ledger.Perm q.ledger) : q'.table = q.table := by
  funext id
  apply Option.ext
  intro body
  rw [table_eq_some_iff (h.of_perm hperm), table_eq_some_iff h, hperm.mem_iff]

theorem table_of_accept (h : q.Distinct) (hnew : q.table body.id = none)
    (hperm : q'.ledger.Perm (body :: q.ledger)) :
    q'.Distinct ∧ q'.table = Function.update q.table body.id (some body) := by
  have hdistinct : q'.Distinct := by
    unfold Distinct
    rw [(hperm.map Body.id).nodup_iff, map_cons, nodup_cons]
    exact ⟨table_eq_none_iff.mp hnew, h⟩
  refine ⟨hdistinct, ?_⟩
  funext id
  apply Option.ext
  intro other
  rw [table_eq_some_iff hdistinct, hperm.mem_iff, mem_cons]
  by_cases hid : id = body.id
  · rw [hid, Function.update_self, Option.some.injEq]
    constructor
    · rintro ⟨rfl | hmem, heq⟩
      · rfl
      · rw [table_eq_none_iff] at hnew
        exact absurd (heq ▸ mem_map_of_mem hmem) hnew
    · rintro rfl
      exact ⟨.inl rfl, rfl⟩
  · rw [Function.update_of_ne hid, table_eq_some_iff h]
    constructor
    · rintro ⟨rfl | hmem, heq⟩
      · exact absurd heq.symm hid
      · exact ⟨hmem, heq⟩
    · rintro ⟨hmem, heq⟩
      exact ⟨.inr hmem, heq⟩

theorem table_of_settle (h : q.Distinct) (hperm : q.ledger.Perm (body :: q'.ledger)) :
    q'.Distinct ∧ q'.table = Function.update q.table body.id none ∧ q.table body.id = some body := by
  have hnodup : (body.id :: q'.ledger.map Body.id).Nodup :=
    (hperm.map Body.id).nodup_iff.mp h
  have hdistinct : q'.Distinct := (nodup_cons.mp hnodup).2
  have hgone : q'.table body.id = none := table_eq_none_iff.mpr (nodup_cons.mp hnodup).1
  have haccept := (table_of_accept hdistinct hgone hperm).2
  refine ⟨hdistinct, ?_, by rw [haccept, Function.update_self]⟩
  rw [haccept, Function.update_idem, ← hgone, Function.update_eq_self]

structure Orderly (q : Queue) : Prop where
  calm : q.Calm
  distinct : q.Distinct

theorem orderly_new (name : String) : (new name).Orderly :=
  ⟨calm_new name, by simp [Distinct, ledger_eq, new]⟩

theorem table_new (name : String) : (new name).table = fun _ => none := by
  funext id
  simp [table, ledger_eq, new]

structure Becomes (q : Queue) (table : String → Option Body) (q' : Queue) : Prop where
  orderly : q'.Orderly
  name : q'.name = q.name
  table : q'.table = table

theorem tryDeliver_name {pass : Pass} (h : q.tryDeliver pass = .ok q') : q'.name = q.name := by
  have ⟨_, run⟩ := tryDeliver_delivers h
  rw [run.same]

theorem enqueueDirect_name {env : Env}
    (h : q.enqueueDirect msg env = .ok q') : q'.name = q.name := by
  simp only [enqueueDirect, Go.bind_eq_ok] at h
  have ⟨delivered, hpass, hfan⟩ := h
  have hname := tryDeliver_name hpass
  rw [forGroups_same hfan]
  exact hname

theorem enqueue_name {env : Env} {err : Option Err}
    (h : q.enqueue msg env = .ok (q', err)) : q'.name = q.name := by
  rcases enqueue_cases h with ⟨_, rfl, _⟩ | ⟨_, _, hdirect⟩
  · rfl
  · exact enqueueDirect_name hdirect

theorem tryDeliver_becomes (pass : Pass) (h : q.Orderly) :
    ∃ q', q.tryDeliver pass = .ok q' ∧ Becomes q q.table q' := by
  have ⟨q', hpass, hcalm⟩ := tryDeliver_calm pass h.calm
  have hledger := tryDeliver_ledger hpass h.distinct
  exact ⟨q', hpass, ⟨hcalm, h.distinct.of_perm hledger⟩, tryDeliver_name hpass,
    table_of_perm h.distinct hledger⟩

theorem enqueueDirect_becomes (env : Env) (h : q.Orderly) (hnew : q.table msg.id = none) :
    ∃ q', q.enqueueDirect msg env = .ok q' ∧
      Becomes q (Function.update q.table msg.id (some msg.body)) q' := by
  have ⟨hdistinct, htable⟩ := table_of_accept h.distinct hnew (accept_ledger q msg)
  have ⟨q', hpass, hdirect, _⟩ := enqueueDirect_calm msg env h.calm
  have ⟨_, hpass', hbecomes⟩ := tryDeliver_becomes env.pass
    (show Orderly { q with messages := q.messages ++ [msg] } from
      ⟨⟨h.calm.routed, h.calm.ungrouped⟩, hdistinct⟩)
  rw [hpass] at hpass'
  cases hpass'
  exact ⟨q', hdirect, hbecomes.orderly, hbecomes.name, hbecomes.table.trans htable⟩

/-- A message that was put last in the list: it still stands there, or all of the
list was delivered and it is the one in flight under its id. -/
def Carries (msg : Message) (q : Queue) : Prop :=
  q.messages.getLast? = some msg ∨
    q.messages = [] ∧ ∃ entry, q.inFlight.find? msg.id = some entry ∧ entry.body = msg.body

theorem Delivers.last {now : Time} {sends : List Delivery} (run : Delivers now q sends q')
    (hlast : q.messages.getLast? = some msg) :
    q'.messages.getLast? = some msg ∨
      q'.messages = [] ∧ ∃ deadline, q'.inFlight.find? msg.id = some (leased msg deadline) :=
  run.invariant (fun _ q' => q'.messages.getLast? = some msg ∨
      q'.messages = [] ∧ ∃ deadline, q'.inFlight.find? msg.id = some (leased msg deadline))
    (.inl hlast) fun h step => by
    cases step with
    | route hroutes => rwa [hroutes.messages, hroutes.inFlight]
    | @handOut c head rest hhead _ _ =>
      rw [hhead] at h
      rcases h with hlast | ⟨hnil, _⟩
      · cases rest with
        | nil =>
          cases hlast
          exact .inr ⟨rfl, _, KeyedMap.find?_insert_self _ (leased head _)⟩
        | cons next rest => exact .inl (by rwa [getLast?_cons_cons] at hlast)
      · cases hnil

theorem Delivers.carries {now : Time} {sends : List Delivery} (run : Delivers now q sends q')
    (hlast : q.messages.getLast? = some msg) : q'.Carries msg := by
  rcases run.last hlast with hstays | ⟨hnil, deadline, hfind⟩
  · exact .inl hstays
  · exact .inr ⟨hnil, leased msg deadline, hfind, leased_body msg deadline⟩

theorem enqueueDirect_carries {env : Env} (h : q.enqueueDirect msg env = .ok q') :
    q'.Carries msg := by
  simp only [enqueueDirect, Go.bind_eq_ok] at h
  have ⟨delivered, hpass, hfan⟩ := h
  have ⟨_, run⟩ := tryDeliver_delivers hpass
  have hsame := forGroups_sameLedger hfan
  rw [Carries, hsame.messages, hsame.inFlight]
  exact run.carries getLast?_concat

theorem Carries.mem_ledger (h : q.Carries msg) : msg.body ∈ q.ledger := by
  rw [ledger_eq, mem_append]
  rcases h with hlast | ⟨_, entry, hfind, hbody⟩
  · exact .inl (mem_map_of_mem (mem_of_getLast? hlast))
  · rw [← hbody]
    exact .inr (mem_map_of_mem (KeyedMap.find?_eq_some_iff.mp hfind).1)

/-- Passes in which the groups take a message and hand out none. -/
def earlyGroups (msg : Message) (q : Queue) (name : String) : Pass :=
  ⟨((q.groups.find? name).map fun g =>
    early ((g.messages ++ [⟨ConsumerGroup.clone msg, g.cloned⟩]).map GroupMessage.toMessage)).getD 0, []⟩

theorem fanOut_early (msg : Message) (hgroups : q'.groups = q.groups) :
    ∃ next, q'.fanOut msg (q.earlyGroups msg) = .ok next := by
  refine forGroups_ok_iff.mpr fun g hg => ⟨_, ConsumerGroup.tryDeliver_early ?_⟩
  have hfind : q.groups.find? g.name = some g := KeyedMap.find?_eq_some_iff.mpr ⟨hgroups ▸ hg, rfl⟩
  simp only [earlyGroups, hfind]
  intro head hhead
  exact early_lt head.toMessage (by rw [List.head?_map, hhead]; rfl)

theorem enqueueDirect_early (msg : Message) (q : Queue) :
    ∃ env q', q.enqueueDirect msg env = .ok q' ∧ q'.messages = q.messages ++ [msg] ∧
      q'.inFlight = q.inFlight := by
  let taken : Queue := { q with messages := q.messages ++ [msg] }
  have hpass : taken.tryDeliver ⟨early taken.messages, []⟩ = .ok taken := tryDeliver_early early_lt
  have ⟨q', hfan⟩ := fanOut_early msg (show taken.groups = q.groups from rfl)
  have hsame := forGroups_sameLedger hfan
  refine ⟨⟨⟨early taken.messages, []⟩, q.earlyGroups msg⟩, q', ?_, hsame.messages, hsame.inFlight⟩
  rw [enqueueDirect, hpass]
  exact hfan

theorem enqueueDirect_drains (msg : Message) (h : q.Routed) (hc : q.consumers ≠ []) :
    ∃ env q' deadline, q.enqueueDirect msg env = .ok q' ∧ q'.messages = [] ∧
      q'.inFlight.find? msg.id = some (leased msg deadline) := by
  have ⟨pass, delivered, hpass, hnil⟩ := tryDeliver_drains
    (show Routed { q with messages := q.messages ++ [msg] } from h) hc
  have ⟨_, run⟩ := tryDeliver_delivers hpass
  have ⟨q', hfan⟩ := fanOut_early msg (show delivered.groups = q.groups by rw [run.same])
  have hsame := forGroups_sameLedger hfan
  rcases run.last getLast?_concat with hlast | ⟨_, deadline, hfound⟩
  · rw [hnil] at hlast
    cases hlast
  · refine ⟨⟨pass, q.earlyGroups msg⟩, q', deadline, ?_, hsame.messages.trans hnil,
      hsame.inFlight ▸ hfound⟩
    rw [enqueueDirect, hpass]
    exact hfan

/-- The pass of no group panics. -/
def Admits (env : Env) (q : Queue) : Prop :=
  ∀ g ∈ q.groups.entries, g.admits (env.group g.name) = true

theorem enqueueDirect_ok_iff_admits (h : q.Routed) (msg : Message) (env : Env) :
    (∃ q', q.enqueueDirect msg env = .ok q') ↔ q.Admits env := by
  have ⟨delivered, hpass⟩ := tryDeliver_ok env.pass
    (show Routed { q with messages := q.messages ++ [msg] } from h)
  have ⟨_, run⟩ := tryDeliver_delivers hpass
  have hgroups : delivered.groups = q.groups := by rw [run.same]
  simp only [Admits, ← ConsumerGroup.enqueue_ok_iff msg]
  rw [← hgroups, ← forGroups_ok_iff]
  simp only [enqueueDirect, hpass]
  rfl

/-- An `Enqueue` returns: the message is refused, or the pass of no group panics. -/
def EnqueueReturns (env : Env) (q : Queue) : Prop := q.full = true ∨ q.Admits env

theorem enqueue_ok_iff (h : q.Routed) (msg : Message) (env : Env) :
    (∃ result, q.enqueue msg env = .ok result) ↔ q.EnqueueReturns env := by
  unfold enqueue EnqueueReturns
  rw [← enqueueDirect_ok_iff_admits h msg]
  cases q.full with
  | true => simp
  | false =>
    simp only [Bool.false_eq_true, if_false, false_or, Go.bind_eq_ok, Go.pure_eq]
    constructor
    · rintro ⟨_, q', hdirect, _⟩
      exact ⟨q', hdirect⟩
    · rintro ⟨q', hdirect⟩
      exact ⟨_, q', hdirect, rfl⟩

theorem enqueueDirect_ok_iff (h : q.Routed) (msg msg' : Message) (env : Env) :
    (∃ q', q.enqueueDirect msg env = .ok q') ↔ ∃ q', q.enqueueDirect msg' env = .ok q' := by
  rw [enqueueDirect_ok_iff_admits h, enqueueDirect_ok_iff_admits h]

theorem dequeue_becomes (timeout : Duration) (pass : Pass) (h : q.Orderly) :
    ∃ q', q.dequeue timeout pass = .ok (q', q.made) ∧ Becomes q q.table q' := by
  have ⟨q', hdequeue, hcalm⟩ := dequeue_calm timeout pass h.calm
  refine ⟨q', hdequeue, ?_⟩
  simp only [dequeue, Go.bind_eq_ok, Go.pure_eq] at hdequeue
  have ⟨_, hpass, hret⟩ := hdequeue
  cases hret
  have hname := tryDeliver_name hpass
  have hledger := tryDeliver_ledger hpass h.distinct
  exact ⟨⟨hcalm, h.distinct.of_perm hledger⟩, hname, table_of_perm h.distinct hledger⟩

theorem removeConsumer_becomes (ch : Nat) (h : q.Orderly) : Becomes q q.table (q.removeConsumer ch) := by
  have hsame : (q.removeConsumer ch).ledger = q.ledger ∧ (q.removeConsumer ch).name = q.name := by
    unfold removeConsumer
    split <;> exact ⟨rfl, rfl⟩
  have hledger := List.Perm.of_eq hsame.1
  exact ⟨⟨removeConsumer_calm ch h.calm, h.distinct.of_perm hledger⟩, hsame.2,
    table_of_perm h.distinct hledger⟩

theorem receive_becomes (ch : Nat) (h : q.Orderly) : Becomes q q.table (q.receive ch) :=
  ⟨⟨receive_calm ch h.calm, h.distinct⟩, rfl, rfl⟩

theorem settle_becomes (h : q.Orderly) (hfind : q.inFlight.find? id = some msg) :
    Becomes q (Function.update q.table id none) { q with inFlight := q.inFlight.erase id } ∧
      q.table id = some msg.body := by
  have hid : msg.id = id := (KeyedMap.find?_eq_some_iff.mp hfind).2
  have ⟨hdistinct, htable, hheld⟩ := table_of_settle h.distinct (settle_ledger hfind)
  rw [Message.body_id, hid] at htable hheld
  exact ⟨⟨⟨⟨h.calm.routed, h.calm.ungrouped⟩, hdistinct⟩, rfl, htable⟩, hheld⟩

theorem settle_deliver_becomes (pass : Pass) (h : q.Orderly)
    (hfind : q.inFlight.find? id = some msg) :
    ∃ q', tryDeliver pass { q with inFlight := q.inFlight.erase id } = .ok q' ∧
      Becomes q (Function.update q.table id none) q' := by
  have hsettled := (settle_becomes h hfind).1
  have ⟨q', hpass, hbecomes⟩ := tryDeliver_becomes pass hsettled.orderly
  exact ⟨q', hpass, hbecomes.orderly, hbecomes.name, hbecomes.table.trans hsettled.table⟩

theorem requeue_becomes (now : Time) (pass : Pass) (h : q.Orderly)
    (hfind : q.inFlight.find? id = some msg) :
    ∃ q', tryDeliver pass { q with
        inFlight := q.inFlight.erase id
        messages := q.messages ++ [renewed now msg] } = .ok q' ∧ Becomes q q.table q' := by
  have hledger := requeue_ledger hfind now
  have ⟨q', hpass, hbecomes⟩ := tryDeliver_becomes pass
    (show Orderly { q with
        inFlight := q.inFlight.erase id
        messages := q.messages ++ [renewed now msg] } from
      ⟨⟨h.calm.routed, h.calm.ungrouped⟩, h.distinct.of_perm hledger⟩)
  exact ⟨q', hpass, hbecomes.orderly, hbecomes.name,
    hbecomes.table.trans (table_of_perm h.distinct hledger)⟩

theorem requeueExpired_becomes (sweep : Sweep) (group : String → Sweep) (h : q.Orderly) :
    ∃ q', q.requeueExpired sweep group = .ok q' ∧ Becomes q q.table q' := by
  have hledger := swept_ledger q sweep.now sweep.order
  have ⟨q', hpass, hexpired, _⟩ := requeueExpired_calm sweep group h.calm
  have ⟨_, hpass', hbecomes⟩ := tryDeliver_becomes sweep.pass
    (show Orderly (q.swept sweep.now sweep.order) from
      ⟨⟨h.calm.routed, h.calm.ungrouped⟩, h.distinct.of_perm hledger⟩)
  rw [hpass] at hpass'
  cases hpass'
  exact ⟨q', hexpired, hbecomes.orderly, hbecomes.name,
    hbecomes.table.trans (table_of_perm h.distinct hledger)⟩

theorem extendVisibility_becomes (extension : Duration) (now : Time) (h : q.Orderly) :
    Becomes q q.table (q.extendVisibility id extension now).1 := by
  unfold extendVisibility
  split
  · exact ⟨h, rfl, rfl⟩
  · rename_i msg hfind
    have hledger := extend_ledger hfind (now + extension)
    exact ⟨⟨⟨h.calm.routed, h.calm.ungrouped⟩, h.distinct.of_perm hledger⟩, rfl,
      table_of_perm h.distinct hledger⟩

theorem purge_becomes (h : q.Orderly) : Becomes q (fun _ => none) q.purge.1 := by
  refine ⟨⟨⟨h.calm.routed, h.calm.ungrouped⟩, by simp [Distinct, ledger_eq, purge]⟩, rfl, ?_⟩
  funext id
  simp [table, ledger_eq, purge]

theorem tail_becomes {rest : List Message} (h : q.Orderly) (hhead : q.messages = msg :: rest) :
    Becomes q (Function.update q.table msg.id none) { q with messages := q.messages.tail } ∧
      q.table msg.id = some msg.body := by
  have hledger : q.ledger.Perm (msg.body :: ledger { q with messages := q.messages.tail }) := by
    simp [ledger_eq, hhead]
  have ⟨hdistinct, htable, hheld⟩ := table_of_settle h.distinct hledger
  exact ⟨⟨⟨⟨h.calm.routed, h.calm.ungrouped⟩, hdistinct⟩, rfl, htable⟩, hheld⟩

end QwerQ.Queue
