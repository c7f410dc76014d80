import LoraModuleFw.ModuleGateway.Session
import LoraModuleFw.ModuleGateway.Tasks

/-! The two tasks as one: however they interleave, the gateway serves one packet
after the other, and the channels lose, repeat and reorder nothing. -/

namespace LoraModuleFw.ModuleGateway

open Lora Ota Schema Runs

/-! ## The gateway alone -/

namespace Gateway

/-- A gateway that takes one packet after the other, with the responses it has made. -/
def serve (s : Gateway × List GatewayPacket) :
    GatewayEvent → Option (Gateway × List GatewayPacket)
  | .host lora p => (s.1.processHostMessage lora p).map fun (r, g, _) =>
    (g, s.2 ++ (r.toOption.bind id).toList)
  | .peer lora p => (s.1.dispatch lora p).map fun (r, g, _) => (g, s.2 ++ r.toList)

end Gateway

def GatewayEvent.hostPacket : GatewayEvent → Option HostPacket
  | .host _ p => some p
  | .peer _ _ => none

def GatewayEvent.peerPacket : GatewayEvent → Option LoRaPacket
  | .host _ _ => none
  | .peer _ p => some p

/-! ## What the tasks have done and what is on the way -/

/-- What went in and out of the tasks: the packets decoded from the UART, those heard
on the radio, those that `gateway_task` served, and the responses that `main` wrote. -/
structure History where
  decoded : List HostPacket
  heard : List LoRaPacket
  served : List GatewayEvent
  written : List GatewayPacket

def History.empty : History := ⟨[], [], [], []⟩

def MainAwait.request : MainAwait → List HostPacket
  | .send p => [p]
  | _ => []

def MainAwait.response : MainAwait → List GatewayPacket
  | .write p => [p]
  | _ => []

def TaskAwait.request : TaskAwait → List HostPacket
  | .host p => [p]
  | _ => []

def TaskAwait.packet : TaskAwait → List LoRaPacket
  | .peer p => [p]
  | _ => []

def TaskAwait.response : TaskAwait → List GatewayPacket
  | .send p _ => [p]
  | _ => []

/-- The packet that the task is about to process. -/
def TaskAwait.event (lora : ModuleLoRa) : TaskAwait → List GatewayEvent
  | .host p => [.host lora p]
  | .peer p => [.peer lora p]
  | _ => []

namespace Tasks

/-- Requests on their way to the gateway, the oldest first. -/
def toGateway (s : Tasks) : List HostPacket :=
  s.task.request ++ s.host2gateway.toList ++ s.main.request

/-- Responses on their way to the host. -/
def toHost (s : Tasks) : List GatewayPacket :=
  s.main.response ++ s.gateway2host.toList ++ s.task.response

def record (s : Tasks) (e : TaskEvent) (h : History) : History :=
  match e with
  | .frame p => { h with decoded := h.decoded ++ p.toList }
  | .heard r => { h with heard := h.heard ++ r.toOption.toList }
  | .processed lora => { h with served := h.served ++ s.task.event lora }
  | .written => { h with written := h.written ++ s.main.response }
  | _ => h

/-- The tasks have done what the gateway alone does with the packets served, and the rest
is on its way. -/
structure Serial (s : Tasks) (h : History) : Prop where
  decoded : h.decoded = h.served.filterMap GatewayEvent.hostPacket ++ s.toGateway
  heard : h.heard = h.served.filterMap GatewayEvent.peerPacket ++ s.task.packet
  served : runOpt Gateway.serve (.new, []) h.served = some (s.gateway, h.written ++ s.toHost)

/-- What each step needs, and where it leads. -/
inductive Moves (s : Tasks) : TaskEvent → Tasks → Prop
  | frame {p : HostPacket} : s.main = .select → Moves s (.frame (some p)) { s with main := .send p }
  | noise : s.main = .select → Moves s (.frame none) { s with main := .led }
  | hostSent {p : HostPacket} {host2gateway : Heapless.Vec HostPacket 2} : s.main = .send p →
      host2gateway.toList = s.host2gateway.toList ++ [p] →
      Moves s .hostSent { s with host2gateway, main := .led }
  | mainFlashed {statusLed : Heapless.Vec Unit 3} : s.main = .led →
      statusLed.toList = s.statusLed.toList ++ [()] →
      Moves s .mainFlashed { s with statusLed, main := .select }
  | response {p : GatewayPacket} {gateway2host : Heapless.Vec GatewayPacket 2} :
      s.main = .select → s.gateway2host.toList = p :: gateway2host.toList →
      Moves s .response { s with gateway2host, main := .write p }
  | written {p : GatewayPacket} : s.main = .write p → Moves s .written { s with main := .select }
  | request {p : HostPacket} {host2gateway : Heapless.Vec HostPacket 2} :
      s.task = .select → s.host2gateway.toList = p :: host2gateway.toList →
      Moves s .request { s with host2gateway, task := .host p }
  | heard {p : LoRaPacket} : s.task = .select → Moves s (.heard (.ok p)) { s with task := .peer p }
  | deaf {e : RadioError} : Moves s (.heard (.error e)) s
  | hostAnswered {lora lora' : ModuleLoRa} {p : HostPacket} {r : GatewayPacket}
      {gateway : Gateway} : s.task = .host p →
      s.gateway.processHostMessage lora p = some (.ok (some r), gateway, lora') →
      Moves s (.processed lora) { s with gateway, task := .send r false }
  | hostServed {lora lora' : ModuleLoRa} {p : HostPacket} {r : Except Error (Option GatewayPacket)}
      {gateway : Gateway} : s.task = .host p →
      s.gateway.processHostMessage lora p = some (r, gateway, lora') →
      r.toOption.bind id = none → Moves s (.processed lora) { s with gateway, task := .select }
  | peerAnswered {lora lora' : ModuleLoRa} {p : LoRaPacket} {r : GatewayPacket}
      {gateway : Gateway} : s.task = .peer p →
      s.gateway.dispatch lora p = some (some r, gateway, lora') →
      Moves s (.processed lora) { s with gateway, task := .send r true }
  | peerServed {lora lora' : ModuleLoRa} {p : LoRaPacket} {gateway : Gateway} :
      s.task = .peer p → s.gateway.dispatch lora p = some (none, gateway, lora') →
      Moves s (.processed lora) { s with gateway, task := .led }
  | responseSent {p : GatewayPacket} {flash : Bool} {gateway2host : Heapless.Vec GatewayPacket 2} :
      s.task = .send p flash → gateway2host.toList = s.gateway2host.toList ++ [p] →
      Moves s .responseSent { s with gateway2host, task := if flash then .led else .select }
  | taskFlashed {statusLed : Heapless.Vec Unit 3} : s.task = .led →
      statusLed.toList = s.statusLed.toList ++ [()] →
      Moves s .taskFlashed { s with statusLed, task := .select }
  | ledDone {statusLed : Heapless.Vec Unit 3} : s.statusLed.toList = () :: statusLed.toList →
      Moves s .ledDone { s with statusLed }

theorem removed {α : Type} {N : Nat} {v : Heapless.Vec α N} {a : α} {rest : List α}
    (h : v.toList = a :: rest) : v.toList = a :: v.removeFirst.toList := by
  rw [Heapless.Vec.toList_removeFirst, h, List.tail_cons]

theorem step_moves {s s' : Tasks} {e : TaskEvent} (h : s.step e = some s') : s.Moves e s' := by
  cases e with
  | frame p =>
    simp only [step] at h
    split at h
    · next hm =>
      cases h
      cases p with
      | none => exact .noise hm
      | some p => exact .frame hm
    · cases h
  | hostSent =>
    simp only [step] at h
    split at h
    · next p hm =>
      obtain ⟨v, hv, rfl⟩ := Option.map_eq_some_iff.mp h
      exact .hostSent hm (Heapless.Vec.push_eq_some.mp hv).2
    · cases h
  | mainFlashed =>
    simp only [step] at h
    split at h
    · next hm =>
      obtain ⟨v, hv, rfl⟩ := Option.map_eq_some_iff.mp h
      exact .mainFlashed hm (Heapless.Vec.push_eq_some.mp hv).2
    · cases h
  | response =>
    simp only [step] at h
    split at h
    · next p rest hm hl =>
      cases h
      exact .response hm (removed hl)
    · cases h
  | written =>
    simp only [step] at h
    split at h
    · next p hm =>
      cases h
      exact .written hm
    · cases h
  | request =>
    simp only [step] at h
    split at h
    · next p rest ht hl =>
      cases h
      exact .request ht (removed hl)
    · cases h
  | heard r =>
    simp only [step] at h
    split at h
    · next ht _ =>
      cases r with
      | ok p =>
        cases h
        exact .heard ht
      | error e =>
        cases h
        exact .deaf
    · cases h
  | processed lora =>
    simp only [step] at h
    split at h
    · next p ht =>
      obtain ⟨⟨r, g, l⟩, hr, he⟩ := Option.map_eq_some_iff.mp h
      rcases r with e | _ | r <;> cases he
      · exact .hostServed ht hr rfl
      · exact .hostServed ht hr rfl
      · exact .hostAnswered ht hr
    · next p ht =>
      obtain ⟨⟨r, g, l⟩, hr, he⟩ := Option.map_eq_some_iff.mp h
      rcases r with _ | r <;> cases he
      · exact .peerServed ht hr
      · exact .peerAnswered ht hr
    · cases h
  | responseSent =>
    simp only [step] at h
    split at h
    · next p flash ht =>
      obtain ⟨v, hv, rfl⟩ := Option.map_eq_some_iff.mp h
      exact .responseSent ht (Heapless.Vec.push_eq_some.mp hv).2
    · cases h
  | taskFlashed =>
    simp only [step] at h
    split at h
    · next ht =>
      obtain ⟨v, hv, rfl⟩ := Option.map_eq_some_iff.mp h
      exact .taskFlashed ht (Heapless.Vec.push_eq_some.mp hv).2
    · cases h
  | ledDone =>
    simp only [step] at h
    split at h
    · next hl =>
      cases h
      exact .ledDone (removed hl)
    · cases h

/-- A message that is processed is served, and its response is in hand. -/
theorem Serial.processed {s : Tasks} {h : History} (hs : Serial s h) {lora : ModuleLoRa}
    {e : GatewayEvent} {gateway : Gateway} {response : List GatewayPacket} {task : TaskAwait}
    (he : s.task.event lora = [e]) (hnone : s.task.response = [])
    (hrequest : s.task.request = e.hostPacket.toList)
    (hpacket : s.task.packet = e.peerPacket.toList)
    (hserve : ∀ rs, Gateway.serve (s.gateway, rs) e = some (gateway, rs ++ response))
    (hrequest' : task.request = []) (hpacket' : task.packet = [])
    (hresponse' : task.response = response) :
    Serial { s with gateway, task } (s.record (.processed lora) h) := by
  obtain ⟨hdecoded, hheard, hserved⟩ := hs
  have hrecord : s.record (.processed lora) h = { h with served := h.served ++ [e] } := by
    rw [← he]
    rfl
  rw [hrecord]
  refine ⟨?_, ?_, runOpt_concat.mpr ⟨_, hserved, ?_⟩⟩
  · simp only [hdecoded, toGateway, hrequest, hrequest', List.filterMap_append, List.filterMap_cons,
      List.filterMap_nil, List.append_assoc, List.nil_append]
    cases e <;> rfl
  · simp only [hheard, hpacket, hpacket', List.filterMap_append, List.filterMap_cons,
      List.filterMap_nil, List.append_nil]
    cases e <;> rfl
  · rw [hserve]
    simp only [toHost, hnone, hresponse', List.append_nil, List.append_assoc]

theorem serve_host {g g' : Gateway} {lora lora' : ModuleLoRa} {p : HostPacket}
    {r : Except Error (Option GatewayPacket)}
    (h : g.processHostMessage lora p = some (r, g', lora')) (rs : List GatewayPacket) :
    Gateway.serve (g, rs) (.host lora p) = some (g', rs ++ (r.toOption.bind id).toList) :=
  Option.map_eq_some_iff.mpr ⟨_, h, rfl⟩

theorem serve_peer {g g' : Gateway} {lora lora' : ModuleLoRa} {p : LoRaPacket}
    {r : Option GatewayPacket} (h : g.dispatch lora p = some (r, g', lora'))
    (rs : List GatewayPacket) :
    Gateway.serve (g, rs) (.peer lora p) = some (g', rs ++ r.toList) :=
  Option.map_eq_some_iff.mpr ⟨_, h, rfl⟩

/-- The packet in hand is served. -/
theorem processed_serves {s s' : Tasks} {lora : ModuleLoRa}
    (h : s.step (.processed lora) = some s') : ∃ e response, s.task.event lora = [e] ∧
      ∀ rs, Gateway.serve (s.gateway, rs) e = some (s'.gateway, rs ++ response) := by
  cases step_moves h with
  | hostAnswered ht hr | hostServed ht hr _ => exact ⟨_, _, by rw [ht]; rfl, serve_host hr⟩
  | peerAnswered ht hr | peerServed ht hr => exact ⟨_, _, by rw [ht]; rfl, serve_peer hr⟩

/-- Most steps only move packets along. -/
theorem Serial.move {s s' : Tasks} {h : History} (hs : Serial s h)
    (hgateway : s'.gateway = s.gateway) (hin : s'.toGateway = s.toGateway)
    (hout : s'.toHost = s.toHost) (hpacket : s'.task.packet = s.task.packet) : Serial s' h where
  decoded := by rw [hin, hs.decoded]
  heard := by rw [hpacket, hs.heard]
  served := by rw [hgateway, hout, hs.served]

/-- **Step lemma.** -/
theorem Serial.step {s s' : Tasks} {h : History} (hs : Serial s h) {e : TaskEvent}
    (hstep : s.step e = some s') : Serial s' (s.record e h) := by
  cases step_moves hstep with
  | frame hm | noise hm =>
    refine ⟨?_, hs.heard, ?_⟩
    · simp only [record, hs.decoded, toGateway, hm, List.append_assoc]
      rfl
    · have hserved := hs.served
      rw [toHost, hm] at hserved
      exact hserved
  | hostSent hm hv =>
    refine hs.move rfl ?_ ?_ rfl
    · simp only [toGateway, hm, MainAwait.request, hv, List.append_assoc, List.append_nil]
    · simp only [toHost, hm, MainAwait.response]
  | mainFlashed hm _ =>
    refine hs.move rfl ?_ ?_ rfl
    · simp only [toGateway, hm, MainAwait.request]
    · simp only [toHost, hm, MainAwait.response]
  | response hm hl =>
    refine hs.move rfl ?_ ?_ rfl
    · simp only [toGateway, hm, MainAwait.request]
    · simp only [toHost, hm, MainAwait.response, hl, List.nil_append, List.singleton_append]
  | written hm =>
    refine ⟨?_, hs.heard, ?_⟩
    · have hdecoded := hs.decoded
      rw [toGateway, hm] at hdecoded
      exact hdecoded
    · have hserved := hs.served
      rw [toHost, hm] at hserved
      simp only [record, hm, toHost]
      rw [hserved]
      simp only [MainAwait.response, List.append_assoc, List.nil_append]
  | request ht hl =>
    refine hs.move rfl ?_ ?_ ?_
    · simp only [toGateway, ht, TaskAwait.request, hl, List.nil_append, List.singleton_append]
    · simp only [toHost, ht, TaskAwait.response]
    · simp only [ht, TaskAwait.packet]
  | heard ht =>
    refine ⟨?_, ?_, ?_⟩
    · have hdecoded := hs.decoded
      rw [toGateway, ht] at hdecoded
      exact hdecoded
    · have hheard : h.heard = h.served.filterMap GatewayEvent.peerPacket := by
        rw [hs.heard, ht]
        exact List.append_nil _
      simp only [record, hheard]
      rfl
    · have hserved := hs.served
      rw [toHost, ht] at hserved
      exact hserved
  | deaf => exact ⟨hs.decoded, (List.append_nil _).trans hs.heard, hs.served⟩
  | hostAnswered ht hr =>
    exact hs.processed (by rw [ht]; rfl) (by rw [ht]; rfl) (by rw [ht]; rfl) (by rw [ht]; rfl)
      (serve_host hr) rfl rfl rfl
  | hostServed ht hr hnone =>
    exact hs.processed (by rw [ht]; rfl) (by rw [ht]; rfl) (by rw [ht]; rfl) (by rw [ht]; rfl)
      (serve_host hr) rfl rfl (by rw [hnone]; rfl)
  | peerAnswered ht hr | peerServed ht hr =>
    exact hs.processed (by rw [ht]; rfl) (by rw [ht]; rfl) (by rw [ht]; rfl) (by rw [ht]; rfl)
      (serve_peer hr) rfl rfl rfl
  | @responseSent _ flash _ ht hv =>
    refine hs.move rfl ?_ ?_ ?_
    · cases flash <;> simp only [toGateway, ht, TaskAwait.request] <;> rfl
    · cases flash <;> simp only [toHost, ht, TaskAwait.response, hv, List.append_assoc] <;> rfl
    · cases flash <;> simp only [ht, TaskAwait.packet] <;> rfl
  | taskFlashed ht _ =>
    refine hs.move rfl ?_ ?_ ?_
    · simp only [toGateway, ht, TaskAwait.request]
    · simp only [toHost, ht, TaskAwait.response]
    · simp only [ht, TaskAwait.packet]
  | ledDone _ => exact hs.move rfl rfl rfl rfl

/-- **Run lemma.** -/
theorem Serial.run {s s' : Tasks} {h h' : History} (hs : Serial s h) {events : List TaskEvent}
    (hrun : runOpt (logged Tasks.step record) (s, h) events = some (s', h')) : Serial s' h' :=
  runOpt_invariant (P := fun x => Serial x.1 x.2) (A := fun _ => True)
    (fun x e y hx _ hstep => by
      obtain ⟨hstep, hlog⟩ := logged_eq_some.mp hstep
      rw [hlog]
      exact hx.step hstep)
    hs (fun _ _ => trivial) hrun

end Tasks

/-! ## Coming to rest -/

/-- Nothing comes in from the host or from the air. -/
def TaskEvent.Internal : TaskEvent → Prop
  | .frame _ => False
  | .heard _ => False
  | _ => True

namespace Tasks

/-- No internal step is possible. -/
def AtRest (s : Tasks) : Prop := ∀ e : TaskEvent, e.Internal → s.step e = none

/-- The packet in hand makes the gateway panic, whatever the radio does. -/
def Panics (s : Tasks) : Prop :=
  (∃ p, s.task = .host p ∧ ∀ lora, s.gateway.processHostMessage lora p = none) ∨
    ∃ p, s.task = .peer p ∧ ∀ lora, s.gateway.dispatch lora p = none

section Rest

variable {s : Tasks}

theorem isFull_of_push_eq_none {α : Type} {N : Nat} {v : Heapless.Vec α N} {a : α}
    (h : v.push a = none) : v.isFull = true := by
  have hle := Heapless.Vec.push_eq_none.mp h
  exact decide_eq_true (Nat.le_antisymm v.length_le hle)

/-- `status_led_task` has taken every command. -/
theorem AtRest.statusLed (h : s.AtRest) (c : Unit) : s.statusLed.push c ≠ none := by
  cases hl : s.statusLed.toList with
  | nil =>
    intro hpush
    have hle := Heapless.Vec.push_eq_none.mp hpush
    rw [hl] at hle
    exact absurd hle (by decide)
  | cons c rest =>
    have hnone := h .ledDone trivial
    simp only [step, hl] at hnone
    cases hnone

/-- `main` waits for a place in its channel, or for something to write. -/
theorem AtRest.main (h : s.AtRest) :
    (∃ p, s.main = .send p) ∧ s.host2gateway.isFull = true ∨
      s.main = .select ∧ s.gateway2host.toList = [] := by
  cases hm : s.main with
  | select =>
    refine Or.inr ⟨rfl, ?_⟩
    cases hl : s.gateway2host.toList with
    | nil => rfl
    | cons p rest =>
      have hnone := h .response trivial
      simp only [step, hm, hl] at hnone
      cases hnone
  | send p =>
    have hnone := h .hostSent trivial
    simp only [step, hm] at hnone
    exact Or.inl ⟨⟨p, rfl⟩, isFull_of_push_eq_none (Option.map_eq_none_iff.mp hnone)⟩
  | led =>
    have hnone := h .mainFlashed trivial
    simp only [step, hm] at hnone
    exact absurd (Option.map_eq_none_iff.mp hnone) (h.statusLed ())
  | write p =>
    have hnone := h .written trivial
    simp only [step, hm] at hnone
    cases hnone

/-- `gateway_task` waits for a place in its channel, or for something to serve, or is dead. -/
theorem AtRest.task (h : s.AtRest) : s.Panics ∨
    (∃ p flash, s.task = .send p flash) ∧ s.gateway2host.isFull = true ∨
      s.task = .select ∧ s.host2gateway.toList = [] := by
  cases ht : s.task with
  | select =>
    refine Or.inr (Or.inr ⟨rfl, ?_⟩)
    cases hl : s.host2gateway.toList with
    | nil => rfl
    | cons p rest =>
      have hnone := h .request trivial
      simp only [step, ht, hl] at hnone
      cases hnone
  | host p =>
    refine Or.inl (Or.inl ⟨p, ht, fun lora => ?_⟩)
    have hnone := h (.processed lora) trivial
    simp only [step, ht] at hnone
    exact Option.map_eq_none_iff.mp hnone
  | peer p =>
    refine Or.inl (Or.inr ⟨p, ht, fun lora => ?_⟩)
    have hnone := h (.processed lora) trivial
    simp only [step, ht] at hnone
    exact Option.map_eq_none_iff.mp hnone
  | send p flash =>
    have hnone := h .responseSent trivial
    simp only [step, ht] at hnone
    exact Or.inr (Or.inl
      ⟨⟨p, flash, rfl⟩, isFull_of_push_eq_none (Option.map_eq_none_iff.mp hnone)⟩)
  | led =>
    have hnone := h .taskFlashed trivial
    simp only [step, ht] at hnone
    exact absurd (Option.map_eq_none_iff.mp hnone) (h.statusLed ())

/-- Tasks at rest block each other, are dead, or have nothing on the way. -/
theorem AtRest.cases (h : s.AtRest) : s.Blocked ∨ s.Panics ∨
    s.toGateway = [] ∧ s.toHost = [] ∧ s.task.packet = [] := by
  rcases h.task with hpanic | ⟨hsend, hfull⟩ | ⟨ht, hempty⟩
  · exact Or.inr (Or.inl hpanic)
  · rcases h.main with ⟨hmain, hfull'⟩ | ⟨_, hnil⟩
    · exact Or.inl ⟨hmain, hfull', hsend, hfull⟩
    · rw [Heapless.Vec.isFull, decide_eq_true_eq, hnil] at hfull
      cases hfull
  · rcases h.main with ⟨_, hfull⟩ | ⟨hm, hnil⟩
    · rw [Heapless.Vec.isFull, decide_eq_true_eq, hempty] at hfull
      cases hfull
    · refine Or.inr (Or.inr ⟨?_, ?_, ?_⟩)
      · rw [toGateway, ht, hempty, hm]
        rfl
      · rw [toHost, ht, hnil, hm]
        rfl
      · rw [ht]
        rfl

/-- Tasks at rest that neither block each other nor are dead have served and answered all. -/
theorem Serial.drained {h : History} (hs : Serial s h) (hat : s.AtRest) (hblocked : ¬ s.Blocked)
    (hpanics : ¬ s.Panics) :
    h.served.filterMap GatewayEvent.hostPacket = h.decoded ∧
      h.served.filterMap GatewayEvent.peerPacket = h.heard ∧
      runOpt Gateway.serve (.new, []) h.served = some (s.gateway, h.written) := by
  rcases hat.cases with hb | hp | ⟨hin, hout, hpacket⟩
  · exact absurd hb hblocked
  · exact absurd hp hpanics
  · refine ⟨?_, ?_, ?_⟩
    · rw [hs.decoded, hin, List.append_nil]
    · rw [hs.heard, hpacket, List.append_nil]
    · rw [hs.served, hout, List.append_nil]

end Rest

end Tasks

/-! ## Every interleaving -/

end LoraModuleFw.ModuleGateway
