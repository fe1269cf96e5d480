import Shitty.Http1.Theorems.Delivery
import Shitty.Http2.Theorems.Replies

/-!
# From HTTP/1 to HTTP/2

A client transport sends requests, and the last of them asks for HTTP/2: those in front of it
are dispatched, and it is the first request of the transport that is put in the place of the
one it was sent to.
-/

namespace Shitty.Http2

open ServerTransport

/-- Put in the place of an HTTP/1 transport: the request it was put there for is its first, and
the response to it is sent behind the preface. -/
def Impl.upgraded (peerSettings_ : Settings) (message : Message) : Impl :=
  { Impl.new peerSettings_ with
      sent := [greeting, response 1].map octetsOf
      requests := [(1, message)] }

theorem begins_upgraded (peerSettings_ : Settings) (message : Message) :
    Begins (Impl.upgraded peerSettings_ message) :=
  ⟨rfl, rfl, rfl, rfl, rfl, rfl, rfl⟩

end Shitty.Http2

namespace Shitty.Http1

open Lib.Resumable Transport

namespace Transport

variable {ω : Type} {find : Find} {virtual : Virtual ω}

/-! ## A message with which the transport is replaced -/

section

variable {m : WireMessage} {w w₁ w₂ : ω}

/-- Nothing is behind it, and its body is due where it ends. -/
theorem message_replaces (due : Nat → Option Nat) (received : Nat)
    (hreplaced : virtual.replaced w = false)
    (hend : virtual.onEndOfMessageHeaders (m.fields.map Field.header) w = .ok () w₁)
    (hstays : virtual.replaced w₁ = false)
    (hhandle : virtual.handleIncomingMessage m.message w₁ = .ok () w₂)
    (hnew : virtual.replaced w₂ = true) (handled : List IncomingMessage)
    (hinside : m.text.length ≤ received)
    (hdue : m.body.length ≠ 0 → due (received - m.text.length + m.head.length) =
      some (received - m.text.length + m.head.length + m.body.length)) :
    ∃ t : Transport ω, Reaches (messages find virtual due)
        (between m.text handled w, received) (t, received) ∧ t.buf = [] ∧ t.world = w₂ := by
  have htext : m.text.length = m.head.length + m.body.length := List.length_append
  have hbuf : (between m.text handled w).buf = headText m.first_line m.fields ++ m.body := rfl
  by_cases hbody : m.body = []
  · have hmsg : m.message = headOnly m.first_line m.fields := by
      rw [WireMessage.message, hbody]
      rfl
    have hlength := m.length find
    rw [hbody] at hlength hbuf
    rw [hmsg] at hhandle
    obtain ⟨u, last_header_, hhead, hstep⟩ := head_blank find due received m.first_line_line rfl
      hreplaced hbuf hlength hend
    rw [handleComplete_true rfl (handleMessage_replaced rfl hhandle hnew)] at hstep
    exact ⟨_, hhead.tail (Counting.next_iff.mpr ⟨hstep, rfl⟩), rfl, rfl⟩
  · have hpos := List.length_pos_iff.mpr hbody
    obtain ⟨s, hparked, hawaits, hrest, -, hworld⟩ :=
      body_reached due received hbody hreplaced hend [] handled
    rw [List.append_nil] at hparked hrest
    have hmsg : IncomingMessage.append (headOnly m.first_line m.fields)
        (s.buf.take m.body.length) = m.message := by
      rw [hrest, List.take_length]
      rfl
    have hlen : s.buf.length = m.body.length := congrArg List.length hrest
    have hdue' := hdue (by omega)
    rw [show received - m.text.length + m.head.length = received - s.buf.length by omega] at hdue'
    have hread := body_handled find hawaits (by rw [hworld]; exact hstays) (by omega) hlen.ge hdue'
      (handleMessage_replaced rfl (by rw [hmsg, hworld]; exact hhandle) hnew)
    refine ⟨_, hparked.tail hread, ?_, rfl⟩
    rw [feed, hrest, List.drop_length]
    rfl

end

theorem TakesAll.stays {ms : List WireMessage} {w w' : ω} (h : TakesAll find virtual ms w w') :
    virtual.replaced w = false → virtual.replaced w' = false := by
  induction h with
  | nil => exact id
  | cons hm _ ih => exact fun _ => ih hm.stays

theorem paced_snoc {due : Nat → Option Nat} {m : WireMessage} (ms : List WireMessage) :
    ∀ {start : Nat}, Paced due start ((ms ++ [m]).map WireMessage.sizes) →
      Paced due start (ms.map WireMessage.sizes) ∧
        (m.body.length ≠ 0 → due (start + (WireMessage.stream ms).length + m.head.length) =
          some (start + (WireMessage.stream ms).length + m.head.length + m.body.length)) := by
  induction ms with
  | nil => exact fun h => ⟨trivial, h.1⟩
  | cons first ms ih =>
      intro start h
      obtain ⟨hdue, hrest⟩ := h
      obtain ⟨hothers, hlast⟩ := ih hrest
      have hstream : (WireMessage.stream (first :: ms)).length =
          first.head.length + first.body.length + (WireMessage.stream ms).length := by
        rw [WireMessage.stream, List.flatMap_cons, List.length_append, WireMessage.text,
          List.length_append]
        rfl
      refine ⟨⟨hdue, hothers⟩, ?_⟩
      rw [hstream, ← Nat.add_assoc, ← Nat.add_assoc]
      exact hlast

/-- Any cutting of messages of which the last one replaces the transport. -/
theorem run_replaced {ms : List WireMessage} {m : WireMessage} {w w' w₁ w₂ : ω}
    (h : TakesAll find virtual ms w w') (hreplaced : virtual.replaced w = false)
    (hend : virtual.onEndOfMessageHeaders (m.fields.map Field.header) w' = .ok () w₁)
    (hstays : virtual.replaced w₁ = false)
    (hhandle : virtual.handleIncomingMessage m.message w₁ = .ok () w₂)
    (hnew : virtual.replaced w₂ = true) {pieces : List Bytes}
    (hne : ∀ piece ∈ pieces, piece ≠ []) (hcut : pieces.flatten = WireMessage.stream (ms ++ [m]))
    (hpaced : Paced (secondEnd pieces) 0 ((ms ++ [m]).map WireMessage.sizes)) :
    ∃ t, run find virtual pieces (between [] [] w) = (t, none) ∧ t.buf = [] ∧ t.world = w₂ := by
  have hstream : WireMessage.stream (ms ++ [m]) = WireMessage.stream ms ++ m.text := by
    rw [WireMessage.stream, List.flatMap_append, List.flatMap_singleton]
    rfl
  rw [hstream] at hcut
  have hlen : pieces.flatten.length = (WireMessage.stream ms).length + m.text.length := by
    rw [hcut, List.length_append]
  obtain ⟨hothers, hlast⟩ := paced_snoc ms hpaced
  have hreached := messages_reach (secondEnd pieces) pieces.flatten.length h m.text [] hreplaced
    (by rw [hcut]) (by rw [hcut, Nat.sub_self]; exact hothers)
  obtain ⟨t, hdone, hempty, hworld⟩ := message_replaces (secondEnd pieces) pieces.flatten.length
    (h.stays hreplaced) hend hstays hhandle hnew ([] ++ ms.map WireMessage.message) (by omega)
    (by rwa [show pieces.flatten.length - m.text.length = 0 + (WireMessage.stream ms).length
      by omega])
  refine ⟨t, run_fresh find hne [] w ?_, hempty, hworld⟩
  rw [hcut] at hreached hdone ⊢
  exact (Drains.iff_of_reaches (hreached.trans hdone)).mpr
    (.wait (waits_empty find virtual _ _ hempty))

end Transport

/-! ## A request for HTTP/2 -/

/-- A request with an Upgrade that names HTTP/2 and with these settings, and no Expect. -/
structure Asking.Upgrades (a : Asking) (http2Settings : Bytes) : Prop where
  asks : ∃ f ∈ a.fields, f.is "upgrade" = true
  token : ∀ f ∈ a.fields, f.is "upgrade" = true → f.value = octets "h2c"
  has_settings : ∃ f ∈ a.fields, f.is "HTTP2-Settings" = true
  settings : ∀ f ∈ a.fields, f.is "HTTP2-Settings" = true → f.value = http2Settings
  expect : ∀ f ∈ a.fields, f.is "expect" = false

/-- The response "101 Switching Protocols" that confirms an upgrade to HTTP/2. -/
def switchingProtocols : Response where
  status_code_ := 101
  message := { headers_ := [(octets "Connection", octets "Upgrade"),
    (octets "Upgrade", octets "h2c")] }

/-- The request as it becomes stream 1. -/
def withoutUpgrade (request : Request) : Message :=
  { request.message_ with headers_ := request.message_.headers_.remove (octets "Upgrade") }

/-- The value of a field that each field of its name has. -/
theorem Arrives.get_value {p : Parcel} {msg : Message} (h : Arrives p msg) (find : Find)
    {name : String} {value : Bytes} (hsome : ∃ f ∈ p.fields, f.is name = true)
    (hvalue : ∀ f ∈ p.fields, f.is name = true → f.value = value)
    (hothers : ∀ other ∈ ["date", "server", "content-length"],
      CaseInsensitiveEqual (octets other) (octets name) = false) :
    (msg.headers_.get find (octets name)).2 = value := by
  rw [Headers.get]
  cases hfind : find.find msg.headers_ (octets name) with
  | none =>
      obtain ⟨f, hf, his⟩ := hsome
      have hmem : f ∈ p.outgoing := by simp [Parcel.outgoing, hf]
      have hnone := find.complete _ _ hfind f.header
        (h.headers.mem_iff.mpr (List.mem_map_of_mem hmem))
      rw [f.is_header, his] at hnone
      cases hnone
  | some i =>
      obtain ⟨hmem, hequal⟩ := find.get_mem hfind
      obtain ⟨f, hf, heq⟩ := List.mem_map.mp (h.headers.mem_iff.mp hmem)
      rw [← heq, f.is_header] at hequal
      simp only [← heq]
      exact hvalue f (Parcel.mem_outgoing hf hequal hothers) hequal

namespace ServerTransport

variable {σ : Type} {server : Server σ} {request : Request} {w : World σ}

theorem upgrade_new (peerSettings_ : Http2.Settings) :
    upgrade (Http2.Impl.new peerSettings_) request w =
      .ok () { w with replacedBy := some (Http2.Impl.upgraded peerSettings_ request.message_) } :=
  rfl

/-- The response goes out before the transport is replaced. -/
theorem tryUpgrade_h2c {find : Find} {peerSettings_ : Http2.Settings} (hopen : w.isOpen = true)
    (hh2c : (request.message_.headers_.get find (octets "upgrade")).2 = octets "h2c")
    (hupgrade : server.upgrade request = .ok (Http2.Impl.new peerSettings_)) :
    tryUpgrade find server request w =
      .ok true { w with
        sent := w.sent ++ [switchingProtocols]
        replacedBy := some (Http2.Impl.upgraded peerSettings_ (withoutUpgrade request)) } := by
  have hasks : request.message_.headers_.get find (octets "upgrade") ≠ no_header := by
    intro hnone
    rw [hnone] at hh2c
    exact absurd hh2c (by decide +kernel)
  have hregistered : registered (octets "h2c") = true := by decide +kernel
  have hconfirm : confirmUpgrade (octets "h2c") w =
      .ok () { w with sent := w.sent ++ [switchingProtocols] } := by
    have hsend : confirmUpgrade (octets "h2c") w = sendResponse switchingProtocols w := rfl
    have hsendable : Sendable switchingProtocols := by decide
    rw [hsend, sendResponse_ok hsendable, World.write, if_pos hopen]
  unfold tryUpgrade
  simp only [if_neg hasks, hh2c, if_neg (not_not_intro hregistered), hupgrade]
  rw [act_bind_of_ok hconfirm, act_bind_of_ok (upgrade_new peerSettings_)]
  rfl

end ServerTransport

theorem forall₂_snoc {α β : Type*} {R : α → β → Prop} {xs : List α} {x : α} {ys : List β}
    (h : List.Forall₂ R (xs ++ [x]) ys) :
    ∃ front y, ys = front ++ [y] ∧ List.Forall₂ R xs front ∧ R x y := by
  obtain ⟨y, hlast⟩ : ∃ y, ys.drop xs.length = [y] := by
    refine List.length_eq_one_iff.mp ?_
    rw [List.length_drop, ← h.length_eq, List.length_append, Nat.add_sub_cancel_left]
    rfl
  have hfront := List.forall₂_take_append ys xs [x] h.flip
  have hbehind := List.forall₂_drop_append ys xs [x] h.flip
  rw [hlast] at hbehind
  cases hbehind with
  | cons hx _ =>
      exact ⟨ys.take xs.length, y, by rw [← hlast, List.take_append_drop], hfront.flip, hx⟩

section

variable {σ : Type} {server : Server σ} {fb64 : Http2.Fb64} {find : Find} {a : Asking}
  {http2Settings : Bytes} {peerSettings_ : Http2.Settings}

/-- The settings are those of the request. -/
theorem Asking.Upgrades.upgrade (ha : a.Upgrades http2Settings) {request : Request}
    (harrives : a.Arrives request)
    (hdecode : Http2.decodeBase64Settings fb64 http2Settings = .ok peerSettings_) :
    HTTP2Upgrader.upgrade fb64 find request = .ok (Http2.Impl.new peerSettings_) := by
  have hvalue : (request.message_.headers_.get find (octets "HTTP2-Settings")).2 =
      http2Settings :=
    harrives.message.get_value find ha.has_settings ha.settings (by decide +kernel)
  unfold HTTP2Upgrader.upgrade Http2.Impl.construct
  simp only [hvalue, hdecode]
  rfl

/-- What is made of such a request. -/
theorem handleIncomingMessage_upgrades {m : WireMessage} (hm : OnWire a.toParcel m)
    (ha : a.Upgrades http2Settings) (hserver : server.upgrade = HTTP2Upgrader.upgrade fb64 find)
    (hdecode : Http2.decodeBase64Settings fb64 http2Settings = .ok peerSettings_)
    {w : ServerTransport.World σ} (hopen : w.isOpen = true) :
    ServerTransport.handleIncomingMessage find server m.message w =
      .ok () { w with
        sent := w.sent ++ [switchingProtocols]
        replacedBy := some (Http2.Impl.upgraded peerSettings_ (withoutUpgrade
          { method_ := a.method, path_ := a.path, message_ := m.message.message })) } := by
  have hh2c : (Headers.get m.message.message.headers_ find (octets "upgrade")).2 = octets "h2c" :=
    hm.arrives.get_value find ha.asks ha.token (by decide +kernel)
  have hupgrade : server.upgrade
      { method_ := a.method, path_ := a.path, message_ := m.message.message } =
        .ok (Http2.Impl.new peerSettings_) := by
    rw [hserver]
    exact ha.upgrade ⟨rfl, rfl, hm.arrives⟩ hdecode
  unfold ServerTransport.handleIncomingMessage ServerTransport.onRequest
  rw [hm.request_line]
  simp only
  rw [act_bind_of_ok (ServerTransport.tryUpgrade_h2c hopen hh2c hupgrade)]
  rfl

/-- Requests that a client transport has sent, the last of which asks for HTTP/2. -/
theorem run_upgraded (hreturns : server.Returns)
    (hserver : server.upgrade = HTTP2Upgrader.upgrade fb64 find) (app : σ) {askings : List Asking}
    (hplain : ∀ a ∈ askings, a.Plain) (ha : a.Upgrades http2Settings)
    (hdecode : Http2.decodeBase64Settings fb64 http2Settings = .ok peerSettings_)
    (d : Direction Asking.sender (askings ++ [a])) :
    ∃ requests responses app' request, List.Forall₂ Asking.Arrives askings requests ∧
      Dispatches server requests app responses app' ∧ a.Arrives request ∧
      ∃ t, run find (ServerTransport.virtual find server) d.pieces (ServerTransport.new app) =
          (t, none) ∧
        t.buf = [] ∧ t.world.isOpen = true ∧ t.world.sent = responses ++ [switchingProtocols] ∧
        t.world.replacedBy = some (Http2.Impl.upgraded peerSettings_ (withoutUpgrade request)) := by
  obtain ⟨all, hall, hcut, hpaced⟩ := d.exists_messages
  obtain ⟨ms, last, rfl, hfront, hlast⟩ := forall₂_snoc hall
  change OnWire a.toParcel last at hlast
  obtain ⟨requests, responses, app', harrive, hdispatches, htakes⟩ :=
    takes_askings find hreturns hfront hplain { app := app } rfl rfl
  obtain ⟨t, hrun, hempty, hworld⟩ := run_replaced htakes rfl
    (hlast.head_silent ha.expect find _) rfl
    (handleIncomingMessage_upgrades hlast ha hserver hdecode rfl) rfl d.pieces_ne hcut hpaced
  exact ⟨requests, responses, app', _, harrive, hdispatches, ⟨rfl, rfl, hlast.arrives⟩, t, hrun,
    hempty, congrArg _ hworld, congrArg _ hworld, congrArg _ hworld⟩

end

/-! ## Two requests -/

def upgradeField : Field where
  name := octets "Upgrade"
  value := octets "h2c"
  name_ne := by decide +kernel
  name_colon := by decide +kernel
  name_line := by decide +kernel
  name_front := by decide +kernel
  value_line := by decide +kernel
  value_front := by decide +kernel
  value_back := by decide +kernel

/-- The header table's size is set to 1. -/
def settingsField : Field where
  name := octets "HTTP2-Settings"
  value := octets "AAEAAAAB"
  name_ne := by decide +kernel
  name_colon := by decide +kernel
  name_line := by decide +kernel
  name_front := by decide +kernel
  value_line := by decide +kernel
  value_front := by decide +kernel
  value_back := by decide +kernel

theorem upgrade_content : ∀ f ∈ [upgradeField, settingsField], f.is "content-length" = true →
    f.value ≠ [] ∧ (∀ c ∈ f.value, isdigit c = true) ∧ decimal f.value = ([] : Bytes).length := by
  intro f hf his
  simp only [List.mem_cons, List.not_mem_nil, or_false] at hf
  rcases hf with rfl | rfl <;> exact absurd his (by decide +kernel)

theorem get_root_line : LF ∉ octets "GET" ++ SP :: octets "/" ++ SP :: VERSION :=
  rootAsking.first_line_line

theorem noon_year : Date.year noon.tm ≤ 9999 := rootAsking.year

/-- `GET /`, over HTTP/2 from there on. -/
def upgradeAsking : Asking where
  first_line := octets "GET" ++ SP :: octets "/" ++ SP :: VERSION
  fields := [upgradeField, settingsField]
  body := []
  moment := noon
  first_line_line := get_root_line
  content_length := upgrade_content
  body_fits := empty_fits
  year := noon_year
  method := octets "GET"
  path := octets "/"
  method_space := get_space
  path_space := root_space
  is_request := rootAsking.is_request

theorem upgradeAsking_upgrades : upgradeAsking.Upgrades (octets "AAEAAAAB") where
  asks := ⟨upgradeField, by simp [upgradeAsking], by decide +kernel⟩
  token := by
    intro f hf his
    simp only [upgradeAsking, List.mem_cons, List.not_mem_nil, or_false] at hf
    rcases hf with rfl | rfl
    · rfl
    · exact absurd his (by decide +kernel)
  has_settings := ⟨settingsField, by simp [upgradeAsking], by decide +kernel⟩
  settings := by
    intro f hf his
    simp only [upgradeAsking, List.mem_cons, List.not_mem_nil, or_false] at hf
    rcases hf with rfl | rfl
    · exact absurd his (by decide +kernel)
    · rfl
  expect := by
    intro f hf
    simp only [upgradeAsking, List.mem_cons, List.not_mem_nil, or_false] at hf
    rcases hf with rfl | rfl <;> decide +kernel

/-- The reads in which the request for HTTP/2 comes, behind another one with a body. -/
def changePieces : List Bytes := bodyApart Asking.sender postAsking [upgradeAsking]

theorem change_sent : SentAll Asking.sender [postAsking, upgradeAsking] changePieces where
  sent := by decide +kernel
  isOpen := by decide +kernel
  nothing_waits := by decide +kernel
  reads := by decide +kernel
  pieces_ne := by decide +kernel
  paced := by
    refine ⟨fun _ => ?_, fun hne => absurd rfl hne, trivial⟩
    decide +kernel

end Shitty.Http1
