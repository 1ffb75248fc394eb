import QwerQ.Cluster.Node
import QwerQ.Library.Replicas

/-! Two nodes that apply the same log hold the same ids for as long as they make the
same choices. -/
namespace QwerQ
open Process

namespace Node

def applies (cmd : Command) (w : World) (answer : FSMResponse) (w' : World) : Prop :=
  ∃ env, (FSM.apply cmd env).run w = (.ok answer, w')

def acts (w w' : World) : Prop :=
  ∃ queue op, Queue.Op.isLocal op = true ∧ (locally queue op).run w = (.ok (), w')

theorem simulates : Replicas.Simulates applies acts World.Steady World.holdings Command.choice
    Command.next where
  apply := by
    rintro cmd w answer w' h ⟨env, hrun⟩
    have hfollows := apply_run h hrun
    exact ⟨hfollows.steady, hfollows.next⟩
  act := by
    rintro w w' h ⟨queue, op, hlocal, hrun⟩
    have ⟨hsteady, _, hheld⟩ := ensures_iff.mp (locally_keeps h hlocal) _ _ hrun
    exact ⟨hsteady, hheld⟩

def SameIds (left right : World) : Prop := ∀ name id, id ∈ left.liveIds name ↔ id ∈ right.liveIds name

variable {left right : World} {queue messageID : String} {l r : FSMResponse}

theorem sameIds_of_holdings (h : left.holdings = right.holdings) :
    SameIds left right := by
  intro name id
  rw [World.mem_liveIds, World.mem_liveIds, h]

def Alike (cmd : Command) (left right : World) : Prop := cmd.choice left = cmd.choice right

theorem settled_differs {held : Holdings} {ids : Set String} (hheld : held queue = some ids)
    (hid : messageID ∈ ids)
    (hleft : Command.settled queue messageID true held = (l, left.holdings))
    (hright : Command.settled queue messageID false held = (r, right.holdings)) :
    ¬SameIds left right := by
  intro hsame
  simp only [Command.settled, hheld, Prod.mk.injEq] at hleft hright
  have hmem := hsame queue messageID
  rw [World.mem_liveIds, World.mem_liveIds, ← hleft.2, ← hright.2, Function.update_self, Function.update_self]
    at hmem
  simp [hid] at hmem

theorem settled_alike {leftOut rightOut : Bool}
    {left' right' : World} (hheld : left.holdings = right.holdings)
    (hleftOut : leftOut = true → messageID ∈ (left.holdings queue).getD ∅)
    (hrightOut : rightOut = true → messageID ∈ (right.holdings queue).getD ∅)
    (hleft : Command.settled queue messageID leftOut left.holdings = (l, left'.holdings))
    (hright : Command.settled queue messageID rightOut right.holdings = (r, right'.holdings))
    (hids : SameIds left' right') : leftOut = rightOut := by
  have hsome {w : World} (hmem : messageID ∈ (w.holdings queue).getD ∅) :
      ∃ ids, w.holdings queue = some ids ∧ messageID ∈ ids := by
    cases hheld : w.holdings queue with
    | none => simp [hheld] at hmem
    | some ids => exact ⟨ids, rfl, by simpa [hheld] using hmem⟩
  cases leftOut with
  | true =>
    cases rightOut with
    | true => rfl
    | false =>
      have ⟨ids, hids', hmem⟩ := hsome (hleftOut rfl)
      rw [← hheld] at hright
      exact absurd hids (settled_differs hids' hmem hleft hright)
  | false =>
    cases rightOut with
    | false => rfl
    | true =>
      have ⟨ids, hids', hmem⟩ := hsome (hrightOut rfl)
      rw [hheld] at hleft
      exact absurd (fun name id => (hids name id).symm) (settled_differs hids' hmem hright hleft)

theorem mem_of_settles {w : World} {out : Queue → Bool}
    (hout : ∀ q, out q = true → q.settles messageID = true)
    (h : (w.queue? queue).any out = true) : messageID ∈ (w.holdings queue).getD ∅ := by
  rw [World.holdings]
  cases hq : w.queue? queue with
  | none => simp [hq] at h
  | some q =>
    rw [hq, Option.any_some] at h
    have hsettles := hout q h
    rw [Queue.settles, Bool.and_eq_true] at hsettles
    exact .inr hsettles.1

theorem alike_of_agreement {cmd : Command} {left' right' : World}
    (hheld : left.holdings = right.holdings) (hleft : Follows cmd left l left')
    (hright : Follows cmd right r right') (hanswer : l = r) (hids : SameIds left' right') :
    Alike cmd left right := by
  have hl := hleft.next
  have hr := hright.next
  cases cmd with
  | publish cmd =>
    rw [← hanswer] at hr
    unfold Alike
    by_cases hstream : cmd.stream = true
    · simp [Command.choice, hstream]
    · cases hcl : (Command.publish cmd).choice left <;> cases hcr : (Command.publish cmd).choice right
      · rfl
      · simp [Command.next, hstream, hcl, hcr, FSM.failed] at hl hr
        simp [← hl.1] at hr
      · simp [Command.next, hstream, hcl, hcr, FSM.failed] at hl hr
        simp [← hl.1] at hr
      · rfl
  | ack queue messageID =>
    exact settled_alike hheld (mem_of_settles fun _ h => h) (mem_of_settles fun _ h => h) hl hr hids
  | nack queue messageID requeue =>
    have hout (q : Queue) (h : q.discards messageID requeue = true) : q.settles messageID = true := by
      rw [Queue.discards, Bool.and_eq_true] at h
      exact h.2
    exact settled_alike hheld (mem_of_settles hout) (mem_of_settles hout) hl hr hids
  | _ => rfl

/-- Two nodes that apply the same commands, each with local activity of its own. -/
abbrev PairRuns (guard : Command → World → World → Prop) := Run (Replicas.Step applies acts guard)

/-- In every run in which the nodes choose alike, they hold the same ids and answer
alike; the next command keeps it so exactly if they choose alike again. -/
theorem nodes_agree {leftStorage rightStorage : Bool} {leftLimit rightLimit : UInt64}
    {history : List (Replicas.Outcome Command FSMResponse)} {left right : World}
    (run : PairRuns Alike (.node leftStorage leftLimit, .node rightStorage rightLimit) history
      (left, right)) :
    (SameIds left right ∧ ∀ outcome ∈ history, outcome.left = outcome.right) ∧
      ∀ cmd leftEnv rightEnv, ∃ l left' r right',
        (FSM.apply cmd leftEnv).run left = (.ok l, left') ∧
        (FSM.apply cmd rightEnv).run right = (.ok r, right') ∧
        ((l = r ∧ SameIds left' right') ↔ Alike cmd left right) := by
  have hstart : Replicas.Agree World.Steady World.holdings
      ([] : List (Replicas.Outcome Command FSMResponse))
      (World.node leftStorage leftLimit, World.node rightStorage rightLimit) :=
    ⟨node_steady _ _, node_steady _ _, rfl, fun _ hmem => by cases hmem⟩
  have hagree := simulates.agree hstart run
  refine ⟨⟨sameIds_of_holdings hagree.shared, hagree.answers⟩, fun cmd leftEnv rightEnv => ?_⟩
  have ⟨l, left', hleft, hl⟩ := returns_iff.mp (apply_follows hagree.left cmd leftEnv)
  have ⟨r, right', hright, hr⟩ := returns_iff.mp (apply_follows hagree.right cmd rightEnv)
  refine ⟨l, left', r, right', hleft, hright, ?_, fun halike => ?_⟩
  · rintro ⟨hanswer, hids⟩
    exact alike_of_agreement hagree.shared hl hr hanswer hids
  · have ⟨hanswer, hheld⟩ := simulates.same hagree.left hagree.right hagree.shared halike
      ⟨leftEnv, hleft⟩ ⟨rightEnv, hright⟩
    exact ⟨hanswer, sameIds_of_holdings hheld⟩

def consumeOrders : Queue.Op := .dequeue nanosecondsPerSecond ⟨unixEpoch, []⟩

def consumed (w : World) : World := ((locally "orders" consumeOrders).run w).2

theorem applies_order (w : World) {answer : FSMResponse} {cmd : Command}
    (h : ((FSM.apply cmd epochEnv).run w).1 = .ok answer) : applies cmd w answer (applied cmd w) :=
  ⟨epochEnv, Prod.ext h rfl⟩

theorem acts_order {w : World} (h : ((locally "orders" consumeOrders).run w).1 = .ok ()) :
    acts w (consumed w) :=
  ⟨"orders", consumeOrders, rfl, Prod.ext h rfl⟩

theorem order_published (guard : Command → World → World → Prop)
    (h : guard publishOrder (.node true 0) (.node true 0)) :
    PairRuns guard (.node true 0, .node true 0) [⟨publishOrder, ⟨none, "a"⟩, ⟨none, "a"⟩⟩]
      (applied publishOrder (.node true 0), applied publishOrder (.node true 0)) :=
  Run.start.next (.command publishOrder h (applies_order _ rfl) (applies_order _ rfl))

/-- Both nodes deliver the message before it is acked. -/
theorem nodes_agree_delivered :
    ∃ history left right, PairRuns Alike (.node true 0, .node true 0) history (left, right) ∧
      history.map Replicas.Outcome.command = [publishOrder, ackOrder] ∧ SameIds left right := by
  have run := ((order_published Alike rfl).next (.left (acts_order rfl))).next
    (.right (acts_order rfl))
  have acked := run.next (.command ackOrder rfl (applies_order _ rfl) (applies_order _ rfl))
  exact ⟨_, _, _, acked, rfl, (nodes_agree acked).1.1⟩

/-- Only the left node has delivered the message when the ack is applied: the right
one answers alike and keeps it. -/
theorem ack_splits_nodes :
    ∃ history left right, PairRuns (fun _ _ _ => True) (.node true 0, .node true 0) history
        (left, right) ∧
      history.map Replicas.Outcome.command = [publishOrder, ackOrder] ∧
      (∀ outcome ∈ history, outcome.left = outcome.right) ∧
      left.liveIds "orders" = [] ∧ right.liveIds "orders" = ["a"] := by
  have run := (order_published (fun _ _ _ => True) trivial).next (.left (acts_order rfl))
  have acked := run.next (.command ackOrder trivial (applies_order _ rfl) (applies_order _ rfl))
  exact ⟨_, _, _, acked, rfl, by simp [publishOrder, ackOrder], rfl, rfl⟩

end Node

end QwerQ
