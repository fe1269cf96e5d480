import Shitty.Server.Clients

/-!
# Selection of the protocol

It is made once, with the read after which the octets of the client differ from the
preface of HTTP/2 or are as many; it depends on the octets only, and takes none away.
Behind that read, the connection is what the new transport makes of all octets read so
far by its first call, and by the following ones of what is read then.
-/

namespace Shitty.Server

open Client

variable {σ : Type}

/-- The octets differ from the preface, or are as many. -/
def Settles (text : Bytes) : Prop :=
  Http2.CLIENT_PREFACE.length ≤ text.length ∨ ¬ text <+: Http2.CLIENT_PREFACE

/-- The transport that text asks for. -/
def asked (text : Bytes) : Protocol :=
  if text.take Http2.CLIENT_PREFACE.length = Http2.CLIENT_PREFACE then .http2 else .http1

section

variable (find : Find) (server : Http1.Server σ)

/-- The first call of a transport that is new, with text in its buffer and nothing else. -/
def firstCall (protocol : Protocol) (text : Bytes) (app : σ) : Client σ × σ × Option Exn :=
  match protocol with
  | .http1 =>
      onInput1 find server { started := [(.http1, text)] }
        ((Http1.ServerTransport.new app).feed text)
  | .http2 => onInput2 { started := [(.http2, text)] } ((Http2.Impl.new {}).feed text) app

/-- The reads behind a call, unless it has thrown. -/
def readBehind (pieces : List Bytes) (outcome : Client σ × σ × Option Exn) :
    Client σ × σ × Option Exn :=
  if outcome.2.2.isSome then outcome else run find server pieces outcome.1 outcome.2.1

/-- A connection that has one of the transports switched to. -/
def Switched (c : Client σ) : Prop := ∀ incoming_, c.transport_ ≠ .switch incoming_

/-- While the octets read settle nothing, all of them are in the buffer and the transport is
what it was. With the first read that does, a transport of the protocol that all octets ask
for is put in its place; it is new, its buffer has all octets read so far, and its first call
makes of them what it does. The reads behind that are for the transport there is, and none of
them puts the `SwitchTransport` back or switches again. -/
structure Selects (app : σ) (pieces : List Bytes) (outcome : Client σ × σ × Option Exn) :
    Prop where
  waits : (∀ front, front <+: pieces → ¬ Settles front.flatten) →
    outcome = ({ transport_ := .switch pieces.flatten }, app, none)
  settles : ∀ front piece rest, pieces = front ++ piece :: rest → ¬ Settles front.flatten →
    Settles (front ++ [piece]).flatten →
      outcome = readBehind find server rest
        (firstCall find server (asked pieces.flatten) (front ++ [piece]).flatten app) ∧
      outcome.1.started = [(asked pieces.flatten, (front ++ [piece]).flatten)] ∧
      Switched outcome.1

end

section

open Http2

theorem asked_iff (text : Bytes) : asked text = .http2 ↔ CLIENT_PREFACE <+: text := by
  unfold asked
  rw [List.prefix_iff_eq_take]
  split
  · rename_i heq
    exact iff_of_true rfl heq.symm
  · rename_i hne
    exact iff_of_false nofun fun heq => hne heq.symm

/-- What more octets ask for is what the ones that settle it do. -/
theorem asked_append {text : Bytes} (more : Bytes) (h : Settles text) :
    asked (text ++ more) = asked text := by
  have hiff : asked (text ++ more) = .http2 ↔ asked text = .http2 := by
    rw [asked_iff, asked_iff]
    refine ⟨fun hmore => ?_, fun htext => htext.trans (List.prefix_append _ _)⟩
    rcases List.prefix_or_prefix_of_prefix hmore (List.prefix_append text more) with htext | hpart
    · exact htext
    · -- no more octets than the preface has
      have hlong := h.resolve_right (not_not_intro hpart)
      rw [hpart.eq_of_length (Nat.le_antisymm hpart.length_le hlong)]
  cases hasked : asked text with
  | http2 => exact hiff.mpr hasked
  | http1 =>
      cases hmore : asked (text ++ more) with
      | http1 => rfl
      | http2 =>
          rw [hiff.mp hmore] at hasked
          cases hasked

/-- The decision on what is in the buffer. -/
theorem protocol_eq (buf : Bytes) :
    (Settles buf → SwitchTransport.protocol buf = some (asked buf)) ∧
      (¬ Settles buf → SwitchTransport.protocol buf = none) := by
  unfold Settles SwitchTransport.protocol asked
  by_cases hshort : buf.length < CLIENT_PREFACE.length
  · have hlong : ¬ CLIENT_PREFACE.length ≤ buf.length := Nat.not_le_of_lt hshort
    have htake : buf.take CLIENT_PREFACE.length ≠ CLIENT_PREFACE := by
      intro heq
      have hlen := congrArg List.length heq
      rw [List.length_take] at hlen
      omega
    rw [if_pos hshort, if_neg htake, List.prefix_iff_eq_take]
    simp [hlong]
  · have hlong : CLIENT_PREFACE.length ≤ buf.length := Nat.le_of_not_lt hshort
    rw [if_neg hshort]
    simp [hlong]

theorem settles_mono {text more : Bytes} (h : Settles text) : Settles (text ++ more) := by
  rcases h with hlong | hdiffers
  · left
    rw [List.length_append]
    omega
  · exact .inr fun hpart => hdiffers ((List.prefix_append text more).trans hpart)

end

section

variable (find : Find) (server : Http1.Server σ)

theorem onInput1_started (c : Client σ) (t : Http1.Transport (Http1.ServerTransport.World σ)) :
    (onInput1 find server c t).1.started = c.started ∧ Switched (onInput1 find server c t).1 := by
  unfold onInput1
  split
  · exact ⟨rfl, nofun⟩
  · split
    · exact ⟨rfl, nofun⟩
    · exact ⟨rfl, nofun⟩

theorem onInput2_started (c : Client σ) (t : Http2.Impl) (app : σ) :
    (onInput2 c t app).1.started = c.started ∧ Switched (onInput2 c t app).1 := by
  unfold onInput2
  split
  · exact ⟨rfl, nofun⟩
  · exact ⟨rfl, nofun⟩

/-- A connection that has switched stays so, and no `SwitchTransport` puts another transport
there. -/
theorem onInput_switched {c : Client σ} (hc : Switched c) (more : Bytes) (app : σ) :
    (onInput find server c more app).1.started = c.started ∧
      Switched (onInput find server c more app).1 := by
  unfold onInput
  split
  · rename_i incoming_ heq
    exact absurd heq (hc incoming_)
  · exact onInput1_started find server c _
  · exact onInput2_started c _ app

theorem readBehind_switched (pieces : List Bytes) : ∀ outcome : Client σ × σ × Option Exn,
    Switched outcome.1 →
      (readBehind find server pieces outcome).1.started = outcome.1.started ∧
        Switched (readBehind find server pieces outcome).1 := by
  induction pieces with
  | nil =>
      intro outcome hswitched
      unfold readBehind
      split
      · exact ⟨rfl, hswitched⟩
      · exact ⟨rfl, hswitched⟩
  | cons piece pieces ih =>
      intro outcome hswitched
      unfold readBehind
      split
      · exact ⟨rfl, hswitched⟩
      · obtain ⟨hstarted, hnext⟩ := onInput_switched find server hswitched piece outcome.2.1
        obtain ⟨hrest, hlast⟩ := ih _ hnext
        exact ⟨hrest.trans hstarted, hlast⟩

theorem firstCall_started (protocol : Protocol) (text : Bytes) (app : σ) :
    (firstCall find server protocol text app).1.started = [(protocol, text)] ∧
      Switched (firstCall find server protocol text app).1 := by
  cases protocol with
  | http1 => exact onInput1_started find server _ _
  | http2 => exact onInput2_started _ _ app

/-- The call that settles it. The transport in whose place the new one is put leaves nothing
behind. -/
theorem onInput_settles {incoming_ more : Bytes} (hmore : Settles (incoming_ ++ more)) (app : σ) :
    onInput find server { transport_ := .switch incoming_ } more app =
      firstCall find server (asked (incoming_ ++ more)) (incoming_ ++ more) app := by
  have hswitch : onInput find server { transport_ := .switch incoming_ } more app =
      onInputSwitch find server { transport_ := .switch incoming_ } (incoming_ ++ more) app := rfl
  rw [hswitch, onInputSwitch, (protocol_eq _).1 hmore]
  cases asked (incoming_ ++ more) with
  | http1 => rfl
  | http2 => rfl

/-- A call behind which the octets settle nothing: they are kept, and nothing else is done. -/
theorem onInput_waits {c : Client σ} {incoming_ more : Bytes}
    (hc : c.transport_ = .switch incoming_) (hmore : ¬ Settles (incoming_ ++ more)) (app : σ) :
    onInput find server c more app =
      ({ c with transport_ := .switch (incoming_ ++ more) }, app, none) := by
  unfold onInput
  rw [hc]
  simp only
  rw [onInputSwitch, (protocol_eq _).2 hmore]

/-- The reads that settle nothing, and those behind them. -/
theorem run_waits (front rest : List Bytes) : ∀ (incoming_ : Bytes) (app : σ),
    (∀ part, part <+: front → ¬ Settles (incoming_ ++ part.flatten)) →
      run find server (front ++ rest) { transport_ := .switch incoming_ } app =
        run find server rest { transport_ := .switch (incoming_ ++ front.flatten) } app := by
  induction front with
  | nil =>
      intro incoming_ app _
      rw [List.flatten_nil, List.append_nil, List.nil_append]
  | cons piece front ih =>
      intro incoming_ app hnot
      have hfirst : ¬ Settles (incoming_ ++ piece) := by
        have hpiece := hnot [piece] (List.cons_prefix_cons.mpr ⟨rfl, List.nil_prefix⟩)
        rwa [List.flatten_singleton] at hpiece
      have hstep : run find server (piece :: front ++ rest) { transport_ := .switch incoming_ } app =
          readBehind find server (front ++ rest)
            (onInput find server { transport_ := .switch incoming_ } piece app) := rfl
      rw [hstep, onInput_waits find server rfl hfirst, readBehind, if_neg nofun,
        ih (incoming_ ++ piece) app, List.flatten_cons, List.append_assoc]
      intro part hpart
      have hlonger := hnot (piece :: part) (List.cons_prefix_cons.mpr ⟨rfl, hpart⟩)
      rwa [List.flatten_cons, ← List.append_assoc] at hlonger

/-- What does not settle it does not when it is shorter. -/
theorem waits_of_prefix {front part : List Bytes} (h : ¬ Settles front.flatten)
    (hpart : part <+: front) : ¬ Settles part.flatten := by
  obtain ⟨rest, rfl⟩ := hpart
  intro hsettles
  rw [List.flatten_append] at h
  exact h (settles_mono hsettles)

end

/-- However the octets of a client are cut into reads, the protocol is selected by them. -/
theorem protocol_selection (find : Find) (server : Http1.Server σ) (app : σ)
    (pieces : List Bytes) :
    Selects find server app pieces (run find server pieces {} app) := by
  refine ⟨fun hall => ?_, fun front piece rest hpieces hbefore hsettles => ?_⟩
  · have hrun := run_waits find server pieces [] [] app hall
    rw [List.append_nil, List.nil_append] at hrun
    exact hrun
  · have hfront : run find server pieces {} app =
        run find server (piece :: rest) { transport_ := .switch front.flatten } app := by
      have hrun := run_waits find server front (piece :: rest) [] app
        fun part hpart => waits_of_prefix hbefore hpart
      rw [List.nil_append] at hrun
      rw [hpieces]
      exact hrun
    have htext : (front ++ [piece]).flatten = front.flatten ++ piece := by
      rw [List.flatten_append, List.flatten_singleton]
    rw [htext] at hsettles ⊢
    -- the octets behind the read that settles it do not ask for another transport
    have hasked : asked pieces.flatten = asked (front.flatten ++ piece) := by
      rw [hpieces, List.flatten_append, List.flatten_cons, ← List.append_assoc]
      exact asked_append _ hsettles
    have houtcome : run find server pieces {} app = readBehind find server rest
        (firstCall find server (asked (front.flatten ++ piece)) (front.flatten ++ piece) app) := by
      rw [hfront, ← onInput_settles find server hsettles app]
      rfl
    obtain ⟨hstarted, hswitched⟩ :=
      firstCall_started find server (asked (front.flatten ++ piece)) (front.flatten ++ piece) app
    obtain ⟨hkept, hlast⟩ := readBehind_switched find server rest _ hswitched
    rw [hasked]
    refine ⟨houtcome, ?_, ?_⟩
    · rw [houtcome, hkept, hstarted]
    · rw [houtcome]
      exact hlast

end Shitty.Server
