/-
  The GATT client's requests and what completes them.

  Of a request the connection keeps a single flag.  While it is set, any PDU with one of eight response
  opcodes completes the request, whichever request it answers.  A `Client` is a connection together
  with the opcode of the outstanding request, which the connection forgets; it takes part in no step of
  the code.

  A run is a list of moves: requests sent, PDUs received (also the peer's own requests), results
  polled.  `correlated_iff` compares, move by move, what the client should do with what arrives: the
  two agree along a run iff no accepted PDU arrives for another request than the outstanding one.
-/
import Mathlib.Tactic
import NrfBle.Hw.Conn.Run

namespace NrfBle

open Checked

/-! ## The client -/

/-- A move of the client or its peer: `gatt_send_request`, a received ATT PDU, `gatt_poll`. -/
inductive ClientMove
  | send (op : UInt8) (rest : List UInt8)
  | recv (att : List UInt8) (result : ConnEvent)
  | poll

/-- A connection, and the opcode of the request that is outstanding. -/
structure Client where
  conn : Conn
  request : Option UInt8

namespace Client

/-- One move. -/
def step (s : Client) : ClientMove → Except Panic Client
  | .send op rest => return ⟨s.conn.gattSendRequest (op :: rest), some op⟩
  | .recv att result => do
    let r ← s.conn.handleAtt att result
    return ⟨r.1, if r.1.pendingRequest then s.request else none⟩
  | .poll => return ⟨s.conn.gattTakeResult.2, s.request⟩

/-- Along a run, every move that returns has the property. -/
def Throughout (P : Client → ClientMove → Client → Prop) : Client → List ClientMove → Prop
  | _, [] => True
  | s, m :: ms => ∀ s', s.step m = .ok s' → P s m s' ∧ Throughout P s' ms

/-- The flag says that a request is outstanding. -/
def Tracks (s : Client) : Prop := s.conn.pendingRequest = s.request.isSome

/-- Two properties that agree on every move agree along every run: induction on the moves. -/
theorem throughout_congr {P Q : Client → ClientMove → Client → Prop} {I : Client → Prop}
    (hkeep : ∀ s m s', I s → s.step m = .ok s' → I s')
    (hagree : ∀ s m s', I s → s.step m = .ok s' → (P s m s' ↔ Q s m s'))
    {s : Client} (hs : I s) (ms : List ClientMove) : s.Throughout P ms ↔ s.Throughout Q ms := by
  induction ms generalizing s with
  | nil => exact Iff.rfl
  | cons m ms ih =>
    refine forall_congr' fun s' => forall_congr' fun hstep => ?_
    exact and_congr (hagree s m s' hs hstep) (ih (hkeep s m s' hs hstep))

end Client

/-! ## What should complete a request, and what does -/

/-- The PDU answers a request with opcode `q`: its opcode is the next one, or it is an Error Response
    for `q`. -/
def Matches (q : UInt8) (att : List UInt8) : Prop :=
  att.head? = some (q + 1) ∨ (att.head? = some 0x01 ∧ att[1]? = some q)

/-- What the client keeps of a request and its result. -/
def Conn.requestState (c : Conn) : Bool × Buf 64 × Nat :=
  (c.pendingRequest, c.gattResult, c.gattResultLen)

theorem Conn.WriteFrame.requestState {c c' : Conn} (h : WriteFrame c c') :
    c'.requestState = c.requestState := by
  rw [h]
  rfl

/-- The PDU is one that `handle_att` takes for a response while a request is pending. -/
def accepted (att : List UInt8) : Prop := ∃ op, att.head? = some op ∧ Conn.isAttResponse op = true

/-- **A PDU that is not taken for a response** leaves the request and its result alone. -/
theorem Conn.handleAtt_requestState {c c' : Conn} {att : List UInt8} {result result' : ConnEvent}
    (hnot : ¬ (c.pendingRequest = true ∧ accepted att))
    (h : c.handleAtt att result = .ok (c', result')) : c'.requestState = c.requestState := by
  cases Conn.handleAtt_cases h with
  | empty | replied => rfl
  | @response op rest _ hresp => exact absurd ⟨hresp.1, op, rfl, hresp.2⟩ hnot
  | received _ _ hframe => exact hframe.requestState
  | written _ _ hframe => exact hframe.requestState

/-- **A PDU that is taken for a response** ends the request. -/
theorem Conn.handleAtt_accepted {c c' : Conn} {att : List UInt8} {result result' : ConnEvent}
    (hresp : c.pendingRequest = true ∧ accepted att)
    (h : c.handleAtt att result = .ok (c', result')) : c'.pendingRequest = false := by
  obtain ⟨hpending, op, hhead, hop⟩ := hresp
  cases Conn.handleAtt_cases h with
  | empty => cases hhead
  | response _ hrun => exact Conn.takeResponse_done hrun
  | received hnot =>
    cases hhead
    exact absurd ⟨hpending, hop⟩ hnot
  | written hans =>
    cases hhead
    exact absurd ⟨hpending, hop⟩ hans.1
  | replied hans =>
    cases hhead
    exact absurd ⟨hpending, hop⟩ hans.1

namespace Client

/-- What a move should do: a received PDU changes the request and its result only if it answers the
    request that is outstanding. -/
def Correlated (s : Client) (m : ClientMove) (s' : Client) : Prop :=
  ∀ att result, m = .recv att result →
    (∃ q, s.request = some q ∧ Matches q att) ∨ s'.conn.requestState = s.conn.requestState

/-- An accepted PDU that arrives while a request is outstanding answers it. -/
def AnswersRequest (s : Client) (m : ClientMove) : Prop :=
  ∀ att result q, m = .recv att result → s.request = some q → accepted att → Matches q att

theorem Tracks.step {s s' : Client} {m : ClientMove} (hs : s.Tracks) (h : s.step m = .ok s') :
    s'.Tracks := by
  cases m with
  | send op rest =>
    cases h
    rfl
  | poll =>
    cases h
    exact hs
  | recv att result =>
    obtain ⟨⟨c', result'⟩, hatt, h⟩ := bind_eq_ok.mp h
    cases h
    show c'.pendingRequest = (if c'.pendingRequest then s.request else none).isSome
    cases hpending : c'.pendingRequest with
    | false => rfl
    | true =>
      -- what is still pending was pending before
      rw [if_pos rfl]
      by_cases hresp : s.conn.pendingRequest = true ∧ accepted att
      · rw [Conn.handleAtt_accepted hresp hatt] at hpending
        cases hpending
      · have hsame := congrArg Prod.fst (Conn.handleAtt_requestState hresp hatt)
        exact hpending.symm.trans (hsame.trans hs)

/-- **One move.** -/
theorem correlated_step_iff {s s' : Client} {m : ClientMove} (hs : s.Tracks)
    (h : s.step m = .ok s') : s.Correlated m s' ↔ s.AnswersRequest m := by
  cases m with
  | send op rest => exact iff_of_true (fun _ _ heq => nomatch heq) (fun _ _ _ heq => nomatch heq)
  | poll => exact iff_of_true (fun _ _ heq => nomatch heq) (fun _ _ _ heq => nomatch heq)
  | recv att result =>
    obtain ⟨⟨c', result'⟩, hatt, h⟩ := bind_eq_ok.mp h
    cases h
    by_cases hresp : s.conn.pendingRequest = true ∧ accepted att
    · obtain ⟨q, hq⟩ := Option.isSome_iff_exists.mp (hs.symm.trans hresp.1)
      constructor
      · rintro hcorr _ _ q' ⟨⟩ hq' _
        rcases hcorr att result rfl with ⟨q'', hq'', hmatch⟩ | hsame
        · rw [hq', Option.some.injEq] at hq''
          exact hq'' ▸ hmatch
        · -- the request would still be pending
          have hflag : c'.pendingRequest = s.conn.pendingRequest := congrArg Prod.fst hsame
          rw [Conn.handleAtt_accepted hresp hatt, hresp.1] at hflag
          cases hflag
      · rintro hans _ _ ⟨⟩
        exact .inl ⟨q, hq, hans att result q rfl hq hresp.2⟩
    · refine iff_of_true ?_ ?_
      · rintro _ _ ⟨⟩
        exact .inr (Conn.handleAtt_requestState hresp hatt)
      · rintro _ _ q ⟨⟩ hq hacc
        have hpending : s.conn.pendingRequest = true := by
          rw [hs, hq]
          rfl
        exact absurd ⟨hpending, hacc⟩ hresp

end Client

/-- **Every run of requests, received PDUs and polls** of a connection without a request: each PDU that
    does not answer the outstanding request leaves the flag and the result alone iff every PDU with
    an accepted opcode that arrives while a request is outstanding answers it. -/
theorem correlated_iff {c : Conn} (hc : c.pendingRequest = false) (ms : List ClientMove) :
    Client.Throughout Client.Correlated ⟨c, none⟩ ms ↔
      Client.Throughout (fun s m _ => s.AnswersRequest m) ⟨c, none⟩ ms := by
  have htracks : Client.Tracks ⟨c, none⟩ := hc
  exact Client.throughout_congr (I := Client.Tracks) (fun _ _ _ hs h => hs.step h)
    (fun _ _ _ hs h => Client.correlated_step_iff hs h) htracks ms

/-- A read request and its response. -/
theorem correlated_read :
    Client.Throughout Client.Correlated ⟨Conn.sample .master, none⟩
      [.send 0x0A [3, 0], .recv [0x0B, 7] .idle, .poll] := by
  refine (correlated_iff (c := Conn.sample .master) rfl _).mpr ?_
  rintro _ ⟨⟩
  refine ⟨nofun, ?_⟩
  rintro _ ⟨⟩
  refine ⟨?_, ?_⟩
  · rintro _ _ _ ⟨⟩ ⟨⟩ _
    exact .inl rfl
  · rintro _ ⟨⟩
    exact ⟨nofun, trivial⟩

/-- A read request is completed by a write response, and by an Error Response for a write. -/
theorem write_response_completes_read :
    ¬ Client.Throughout Client.Correlated ⟨Conn.sample .master, none⟩
        [.send 0x0A [3, 0], .recv [0x13] .idle] ∧
      ¬ Client.Throughout Client.Correlated ⟨Conn.sample .master, none⟩
        [.send 0x0A [3, 0], .recv [0x01, 0x12, 3, 0, 0x0A] .idle] := by
  constructor
  all_goals
    intro h
    obtain ⟨_, h⟩ := h _ rfl
    obtain ⟨hcorr, _⟩ := h _ rfl
    rcases hcorr _ _ rfl with ⟨q, hq, hmatch⟩ | hsame
    · cases hq
      rcases hmatch with hnext | ⟨herror, hnames⟩
      · exact absurd hnext (by decide)
      · first | exact absurd herror (by decide) | exact absurd hnames (by decide)
    · have hflag : false = true := congrArg Prod.fst hsame
      cases hflag

end NrfBle
