import Shitty.Http1.Logic.World
import Shitty.Http1.ServerTransport

/-!
# What a server transport sends

The transport adds to the world and takes nothing back from it: the responses that have been
sent are followed by others, each of which has a status line; a connection that has been closed
stays closed, and a transport that has been replaced stays replaced.
-/

namespace Shitty.Http1

open Lib Transport ServerTransport

variable {σ : Type}

/-! ## The virtual functions of a server transport -/

section

variable {P : World σ → Prop}
  (hwrite : ∀ w response, Sendable response → P w → P (w.write [response]))

include hwrite

theorem sendResponse_keeps (resp : Response) : Keeps (sendResponse resp) P := by
  intro w hw
  by_cases hsendable : Sendable resp
  · rw [sendResponse_ok hsendable]
    exact hwrite w resp hsendable hw
  · rw [sendResponse_error hsendable]
    exact hw

theorem respond_keeps (responses : List Response) : Keeps (respond responses) P := by
  induction responses with
  | nil => exact .pure _
  | cons response responses ih => exact .bind (sendResponse_keeps hwrite response) fun _ => ih

theorem head_keeps (find : Find) (headers : Headers) :
    Keeps (onEndOfMessageHeaders find headers) P :=
  .ite (.ite (sendResponse_keeps hwrite _) (sendResponse_keeps hwrite _)) (.pure _)

theorem handled_keeps (find : Find) (server : Server σ)
    (happ : ∀ w app, P w → P { w with app := app })
    (hreplaced : ∀ w t, P w → P { w with replacedBy := some t }) (msg : IncomingMessage) :
    Keeps (handleIncomingMessage find server msg) P := by
  have hdispatch : ∀ request, Keeps (dispatch server request) P := by
    refine fun request => .get_bind fun w => ?_
    cases server.dispatch request w.app with
    | error e => exact .throw e
    | ok result => exact .bind (respond_keeps hwrite result.1) fun _ w hw => happ w result.2 hw
  have hupgrade : ∀ transport request,
      Keeps (upgrade transport request : ServerTransport.Act σ Unit) P := by
    intro transport request w hw
    unfold upgrade
    simp only
    split <;> exact hreplaced w _ hw
  have hconfirm : ∀ token, Keeps (confirmUpgrade token : ServerTransport.Act σ Unit) P := by
    intro token
    unfold confirmUpgrade
    exact sendResponse_keeps hwrite _
  have htry : ∀ request, Keeps (tryUpgrade find server request) P := by
    intro request
    refine .ite (.pure _) (.ite (.pure _) (.bind (hconfirm _) fun _ => ?_))
    cases server.upgrade request with
    | error e => exact .throw e
    | ok transport => exact .bind (hupgrade _ _) fun _ => .pure _
  unfold handleIncomingMessage
  cases parseRequestLine msg.first_line with
  | error e => exact .throw e
  | ok request_line => exact .bind (htry _) fun _ => .ite (.pure _) (hdispatch _)

end

/-! ## Nothing is taken back -/

namespace ServerTransport

/-- What a server transport may have done to the world. -/
structure Behind (w w' : World σ) : Prop where
  sent : ∃ more, w.sent ++ more = w'.sent ∧ ∀ response ∈ more, Sendable response
  isOpen : w'.isOpen = true → w.isOpen = true
  replacedBy : w'.replacedBy = none → w.replacedBy = none

theorem Behind.refl (w : World σ) : Behind w w :=
  ⟨⟨[], List.append_nil _, nofun⟩, id, id⟩

theorem Behind.write {w v : World σ} (h : Behind w v) {response : Response}
    (hsendable : Sendable response) : Behind w (v.write [response]) := by
  refine ⟨?_, fun hopen => ?_, fun hnone => ?_⟩
  · obtain ⟨more, hmore, hall⟩ := h.sent
    unfold World.write
    split
    · refine ⟨more ++ [response], ?_, ?_⟩
      · rw [← List.append_assoc, hmore]
      · exact List.forall_mem_append.mpr ⟨hall, List.forall_mem_singleton.mpr hsendable⟩
    · exact ⟨more, hmore, hall⟩
  · rw [World.write_isOpen] at hopen
    exact h.isOpen hopen
  · rw [World.write_replacedBy] at hnone
    exact h.replacedBy hnone

theorem behind_kept (find : Find) (server : Server σ) (w : World σ) :
    KeptBy (virtual find server) (Behind w) := by
  have hwrite : ∀ (v : World σ) response, Sendable response → Behind w v →
      Behind w (v.write [response]) := fun v response hsendable h => h.write hsendable
  exact ⟨head_keeps hwrite find,
    handled_keeps hwrite find server (fun v app h => ⟨h.sent, h.isOpen, h.replacedBy⟩)
      fun v t h => ⟨h.sent, h.isOpen, fun hnone => by cases hnone⟩,
    fun v h => ⟨h.sent, fun hopen => (by cases hopen), h.replacedBy⟩⟩

/-- Also when an exception leaves `onInput`. -/
theorem onInput_behind (find : Find) (server : Server σ) (t : Transport (World σ)) :
    Behind t.world (endState (Transport.onInput find (virtual find server) t)).world :=
  Transport.onInput_keeps (behind_kept find server t.world) t (Behind.refl t.world)

end ServerTransport

end Shitty.Http1
