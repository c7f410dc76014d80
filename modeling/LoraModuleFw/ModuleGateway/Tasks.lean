import LoraModuleFw.Lib.Runs
import LoraModuleFw.ModuleGateway.Gateway

/-! The two tasks of `module-gateway/src/main.rs` and the channels between them.
A step is an await that comes to its end, with the code up to the next one. -/

namespace LoraModuleFw.ModuleGateway

open Lora Ota Schema Runs

/-- Where `main` waits. -/
inductive MainAwait where
  | select
  | send (p : HostPacket)
  | led
  | write (p : GatewayPacket)

/-- Where `gateway_task` waits: `flash` says that the LED comes after the send. -/
inductive TaskAwait where
  | select
  | host (p : HostPacket)
  | peer (p : LoRaPacket)
  | send (p : GatewayPacket) (flash : Bool)
  | led

structure Tasks where
  main : MainAwait
  task : TaskAwait
  host2gateway : Heapless.Vec HostPacket 2
  gateway2host : Heapless.Vec GatewayPacket 2
  /-- The commands in `STATUS_LED`, which are all the same. -/
  statusLed : Heapless.Vec Unit 3
  gateway : Gateway

inductive TaskEvent where
  /-- `host.read` has a frame; `none` if it or its bytes are in error. -/
  | frame (p : Option HostPacket)
  | hostSent
  | mainFlashed
  | response
  | written
  | request
  /-- `receive_continuous` has a result. -/
  | heard (r : Except RadioError LoRaPacket)
  /-- The message is processed, with the radio as it is found. -/
  | processed (lora : ModuleLoRa)
  | responseSent
  | taskFlashed
  /-- `status_led_task` takes a command. -/
  | ledDone

/-- What the task has in hand to send. -/
def MainAwait.held : MainAwait → Nat
  | .send _ => 1
  | _ => 0

def TaskAwait.held : TaskAwait → Nat
  | .send _ _ => 1
  | _ => 0

namespace Tasks

def start : Tasks :=
  { main := .select, task := .select, host2gateway := .empty, gateway2host := .empty,
    statusLed := .empty, gateway := .new }

/-- `none`: the event cannot happen here, or the code panics. -/
def step (s : Tasks) : TaskEvent → Option Tasks
  | .frame p =>
    match s.main with
    | .select => some { s with main := match p with | some p => .send p | none => .led }
    | _ => none
  | .hostSent =>
    match s.main with
    | .send p => (s.host2gateway.push p).map fun host2gateway =>
      { s with host2gateway, main := .led }
    | _ => none
  | .mainFlashed =>
    match s.main with
    | .led => (s.statusLed.push ()).map fun statusLed => { s with statusLed, main := .select }
    | _ => none
  | .response =>
    match s.main, s.gateway2host.toList with
    | .select, p :: _ =>
      some { s with gateway2host := s.gateway2host.removeFirst, main := .write p }
    | _, _ => none
  | .written =>
    match s.main with
    | .write _ => some { s with main := .select }
    | _ => none
  | .request =>
    match s.task, s.host2gateway.toList with
    | .select, p :: _ =>
      some { s with host2gateway := s.host2gateway.removeFirst, task := .host p }
    | _, _ => none
  | .heard r =>
    -- `select` polls the channel first
    match s.task, s.host2gateway.toList with
    | .select, [] =>
      match r with
      | .ok p => some { s with task := .peer p }
      | .error _ => some s
    | _, _ => none
  | .processed lora =>
    match s.task with
    | .host p => (s.gateway.processHostMessage lora p).map fun
      | (.ok (some r), gateway, _) => { s with gateway, task := .send r false }
      | (_, gateway, _) => { s with gateway, task := .select }
    | .peer p => (s.gateway.dispatch lora p).map fun
      | (some r, gateway, _) => { s with gateway, task := .send r true }
      | (none, gateway, _) => { s with gateway, task := .led }
    | _ => none
  | .responseSent =>
    match s.task with
    | .send p flash => (s.gateway2host.push p).map fun gateway2host =>
      { s with gateway2host, task := if flash then .led else .select }
    | _ => none
  | .taskFlashed =>
    match s.task with
    | .led => (s.statusLed.push ()).map fun statusLed => { s with statusLed, task := .select }
    | _ => none
  | .ledDone =>
    match s.statusLed.toList with
    | _ :: _ => some { s with statusLed := s.statusLed.removeFirst }
    | [] => none

/-- Both tasks are suspended in a send to a full channel. -/
def Blocked (s : Tasks) : Prop :=
  (∃ p, s.main = .send p) ∧ s.host2gateway.isFull = true ∧
    (∃ p flash, s.task = .send p flash) ∧ s.gateway2host.isFull = true

/-! ## Counting -/

/-- How many of the six places are taken: two in either channel, and one for
what each task is about to send. -/
def taken (s : Tasks) : Nat :=
  s.main.held + s.host2gateway.toList.length + s.task.held + s.gateway2host.toList.length

/-- The event gives a task something to send: a frame that decodes, or a
message that has a response. -/
def yields (s : Tasks) : TaskEvent → Bool
  | .frame p => p.isSome
  | .processed lora =>
    match s.task with
    | .host p =>
      match s.gateway.processHostMessage lora p with
      | some (.ok r, _, _) => r.isSome
      | _ => false
    | .peer p =>
      match s.gateway.dispatch lora p with
      | some (r, _, _) => r.isSome
      | none => false
    | _ => false
  | _ => false

/-- The event comes while two places are free, if it needs one. -/
def HasRoom (s : Tasks) (e : TaskEvent) : Prop := s.yields e = true → s.taken ≤ 4

theorem blocked_iff (s : Tasks) : s.Blocked ↔ s.taken = 6 := by
  have h1 := s.host2gateway.length_le
  have h2 := s.gateway2host.length_le
  unfold Blocked taken
  simp only [Heapless.Vec.isFull, decide_eq_true_eq]
  cases hm : s.main <;> cases ht : s.task <;>
    simp only [MainAwait.held, TaskAwait.held, reduceCtorEq, exists_false, false_and, and_false,
      false_iff, MainAwait.send.injEq, TaskAwait.send.injEq, exists_eq', exists_and_left, true_and,
      and_true] <;> omega

/-- A message that `gateway_task` has processed: a response waits to be sent. -/
theorem processed_taken {s s' : Tasks} {lora : ModuleLoRa} (h : s.step (.processed lora) = some s') :
    if s.yields (.processed lora) = true then s'.taken = s.taken + 1 else s'.taken ≤ s.taken := by
  simp only [step] at h
  split at h
  · next p ht =>
    obtain ⟨⟨r, g, l⟩, hr, he⟩ := Option.map_eq_some_iff.mp h
    rcases r with e | _ | r
    · cases he
      simp [yields, taken, ht, hr, TaskAwait.held]
    · cases he
      simp [yields, taken, ht, hr, TaskAwait.held]
    · cases he
      simp only [yields, ht, hr, Option.isSome_some, ↓reduceIte, taken, TaskAwait.held]
      omega
  · next p ht =>
    obtain ⟨⟨r, g, l⟩, hr, he⟩ := Option.map_eq_some_iff.mp h
    rcases r with _ | r
    · cases he
      simp [yields, taken, ht, hr, TaskAwait.held]
    · cases he
      simp only [yields, ht, hr, Option.isSome_some, ↓reduceIte, taken, TaskAwait.held]
      omega
  · cases h

/-- **Step lemma.**  An event that yields something to send takes one more
place, any other takes none. -/
theorem step_taken {s s' : Tasks} {e : TaskEvent} (h : s.step e = some s') :
    if s.yields e = true then s'.taken = s.taken + 1 else s'.taken ≤ s.taken := by
  cases e with
  | frame p =>
    simp only [step] at h
    split at h
    · next hm =>
      cases h
      cases p
      · simp [yields, taken, hm, MainAwait.held]
      · simp only [yields, Option.isSome_some, ↓reduceIte, taken, hm, MainAwait.held]
        omega
    · cases h
  | hostSent =>
    simp only [step] at h
    split at h
    · next hm =>
      obtain ⟨v, hv, rfl⟩ := Option.map_eq_some_iff.mp h
      have hl := (Heapless.Vec.push_eq_some.mp hv).2
      simp only [yields, Bool.false_eq_true, ↓reduceIte, taken, hm, MainAwait.held, hl,
        List.length_append, List.length_singleton]
      omega
    · cases h
  | mainFlashed =>
    simp only [step] at h
    split at h
    · next hm =>
      obtain ⟨v, _, rfl⟩ := Option.map_eq_some_iff.mp h
      simp [yields, taken, hm, MainAwait.held]
    · cases h
  | response =>
    simp only [step] at h
    split at h
    · next hm hl =>
      cases h
      simp [yields, taken, hm, MainAwait.held, hl]
    · cases h
  | written =>
    simp only [step] at h
    split at h
    · next hm =>
      cases h
      simp [yields, taken, hm, MainAwait.held]
    · cases h
  | request =>
    simp only [step] at h
    split at h
    · next ht hl =>
      cases h
      simp [yields, taken, ht, TaskAwait.held, hl]
    · cases h
  | heard r =>
    simp only [step] at h
    split at h
    · next ht _ =>
      split at h
      · cases h
        simp [yields, taken, ht, TaskAwait.held]
      · cases h
        simp [yields]
    · cases h
  | processed lora => exact processed_taken h
  | responseSent =>
    simp only [step] at h
    split at h
    · next p flash ht =>
      obtain ⟨v, hv, rfl⟩ := Option.map_eq_some_iff.mp h
      have hl := (Heapless.Vec.push_eq_some.mp hv).2
      cases flash <;>
        simp only [yields, Bool.false_eq_true, ↓reduceIte, taken, ht, TaskAwait.held, hl,
          List.length_append, List.length_singleton] <;>
        omega
    · cases h
  | taskFlashed =>
    simp only [step] at h
    split at h
    · next ht =>
      obtain ⟨v, _, rfl⟩ := Option.map_eq_some_iff.mp h
      simp [yields, taken, ht, TaskAwait.held]
    · cases h
  | ledDone =>
    simp only [step] at h
    split at h
    · cases h
      simp [yields, taken]
    · cases h

theorem taken_le (s : Tasks) : s.taken ≤ 6 := by
  have h1 := s.host2gateway.length_le
  have h2 := s.gateway2host.length_le
  have h3 : s.main.held ≤ 1 := by cases s.main <;> simp [MainAwait.held]
  have h4 : s.task.held ≤ 1 := by cases s.task <;> simp [TaskAwait.held]
  unfold taken
  omega

theorem step_blocks_iff {s s' : Tasks} {e : TaskEvent} (hs : ¬ s.Blocked)
    (h : s.step e = some s') : ¬ s'.Blocked ↔ s.HasRoom e := by
  rw [blocked_iff] at hs ⊢
  have hstep := step_taken h
  have h1 := s.taken_le
  have h2 := s'.taken_le
  unfold HasRoom
  split at hstep
  · next hy =>
    simp only [hy, true_implies]
    omega
  · next hy =>
    refine iff_of_true (by omega) fun hy' => absurd hy' hy

end Tasks

/-- **The tasks never block each other** in a run exactly when every event of it
that needs a place comes while two are free. -/
theorem never_blocked_iff (events : List TaskEvent) :
    (∀ l t, l <+: events → runOpt Tasks.step Tasks.start l = some t → ¬ t.Blocked) ↔
      AlongOpt Tasks.step Tasks.HasRoom Tasks.start events :=
  forall_prefix_iff_alongOpt (fun _ _ _ hs h => Tasks.step_blocks_iff hs h)
    (by rw [Tasks.blocked_iff]; decide) events

/-- A ping that gets into `HOST2GATEWAY`. -/
def pingIn : List TaskEvent := [.frame (some .pingRequest), .hostSent, .mainFlashed, .ledDone]

/-- The gateway takes a ping and has its answer in hand. -/
def pingTaken : List TaskEvent := [.request, .processed (.quiet 1)]

/-- Six pings in a row, none of whose answers the host gets to read. -/
theorem blocked_by_pings :
    ∃ t, runOpt Tasks.step Tasks.start
      (pingIn ++ pingTaken ++ [.responseSent] ++ pingIn ++ pingTaken ++ [.responseSent] ++
        pingIn ++ pingTaken ++ pingIn ++ pingIn ++ [.frame (some .pingRequest)]) = some t ∧
      t.Blocked := by
  refine ⟨_, rfl, ⟨_, rfl⟩, rfl, ⟨_, _, rfl⟩, rfl⟩

end LoraModuleFw.ModuleGateway
