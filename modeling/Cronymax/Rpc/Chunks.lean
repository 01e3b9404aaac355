import Cronymax.Rpc.Connection
import Cronymax.Rpc.Wire

/-! The read loop does not see where the chunks end: what it does is what `Decoder.parse` finds in
the bytes of all chunks together (`receive_eq`).  From this, what a stream of encoded frames comes
to, whole or broken off or followed by malformed bytes. -/

namespace Cronymax.Rpc

open Atomic Atomic.Prog

/-- The bytes of the chunks. -/
def bytesOf (chunks : List Chunk) : List UInt8 := (chunks.map (·.1)).flatten

/-- The frames of a chunk are dispatched. -/
def dispatchAll : List Frame → LoopProg Unit
  | [] => pure ()
  | frame :: frames => do
    let _ ← perform (.dispatch frame)
    dispatchAll frames

def settle (parsed : List Frame × Except Error (List UInt8)) : LoopProg (List UInt8) := do
  dispatchAll parsed.1
  match parsed.2 with
  | .ok rest => pure rest
  | .error e => do
    failAllPending ("decode error: " ++ e.display)
    .fail e

variable {M : MessagePack}

theorem dispatchAll_append (fs gs : List Frame) :
    dispatchAll (fs ++ gs) = dispatchAll fs >>= fun _ => dispatchAll gs := by
  induction fs with
  | nil => rfl
  | cons f fs ih =>
    simp only [List.cons_append, dispatchAll, perform_bind, act_bind, ih]

theorem settle_cons (f : Frame) (parsed : List Frame × Except Error (List UInt8)) :
    settle (f :: parsed.1, parsed.2) = perform (.dispatch f) >>= fun _ => settle parsed := rfl

theorem decodeAll_eq (buf : List UInt8) :
    decodeAll M buf = settle ((Frame.decoder M).parse buf) := by
  generalize hLength : buf.length = k
  induction k using Nat.strongRecOn generalizing buf with
  | _ k ih =>
    subst hLength
    rw [decodeAll]
    split
    · rename_i frame consumed hRead
      have hRead' : (Frame.decoder M).read buf = .ok (some (frame, consumed)) := hRead
      rw [Framing.Decoder.parse_found hRead', settle_cons,
        ih _ (Framing.Decoder.length_drop_lt hRead') _ rfl]
    · rename_i hRead
      rw [Framing.Decoder.parse_more (d := Frame.decoder M) hRead]
      rfl
    · rename_i e hRead
      rw [Framing.Decoder.parse_failed (d := Frame.decoder M) hRead]
      rfl

theorem receive_eq (chunks : List Chunk) {buf : List UInt8}
    (hBuf : Frame.decodeOne M buf = .ok none) :
    receive M chunks buf = settle ((Frame.decoder M).parse (buf ++ bytesOf chunks)) := by
  induction chunks generalizing buf with
  | nil =>
    have hRead : (Frame.decoder M).read buf = .ok none := hBuf
    rw [bytesOf, List.map_nil, List.flatten_nil, List.append_nil,
      Framing.Decoder.parse_more hRead]
    rfl
  | cons chunk chunks ih =>
    have hBytes : buf ++ bytesOf (chunk :: chunks) = (buf ++ chunk.1) ++ bytesOf chunks := by
      simp only [bytesOf, List.map_cons, List.flatten_cons, List.append_assoc]
    rw [receive, decodeAll_eq, hBytes, Framing.Decoder.parse_append (buf ++ chunk.1)]
    cases hRest : ((Frame.decoder M).parse (buf ++ chunk.1)).2 with
    | ok rest =>
      have hMore : Frame.decodeOne M rest = .ok none := Framing.Decoder.parse_rest hRest
      simp only [settle, hRest, bind_assoc, pure_bind, ih hMore, dispatchAll_append]
    | error e =>
      simp only [settle, hRest, bind_assoc, fail_bind]

/-- The program dispatches these frames and does nothing else. -/
def Dispatches (fs : List Frame) (tr : List (LoopAct × Connection)) : Prop :=
  tr.map (·.1) = fs.map .dispatch

/-- `pending` is drained, and every request that was in it finds the error in its channel. -/
def FailsPending (reason : String) (tr : List (LoopAct × Connection)) : Prop :=
  ∃ conn failures, tr = (.drain, conn) :: failures ∧
    failures.map (·.1) = conn.pending.entries.map (fun e => .fail e.2 (.string reason)) ∧
    ∀ call before, (.fail call (.string reason), before) ∈ failures → before.channels call = .empty →
      (Acts.apply (LoopAct.fail call (.string reason)) before).channels call = .sent (.error (.string reason))

theorem fail_sends {call : Nat} {reason : Value} {conn : Connection} (h : conn.channels call = .empty) :
    (Acts.apply (LoopAct.fail call reason) conn).channels call = .sent (.error reason) := by
  show (conn.send call (.error reason)).channels call = _
  rw [Connection.send, h]
  exact if_pos rfl

theorem yields_dispatchAll {fs : List Frame} {tr : List (LoopAct × Connection)}
    {r : Except Error Unit} (h : Yields (dispatchAll fs) tr r) : Dispatches fs tr ∧ r = .ok () := by
  induction fs generalizing tr with
  | nil =>
    obtain ⟨rfl, rfl⟩ := yields_done.mp h
    exact ⟨rfl, rfl⟩
  | cons f fs ih =>
    obtain ⟨conn, tr', rfl, hTail⟩ := yields_perform.mp h
    obtain ⟨hRest, hr⟩ := ih hTail
    exact ⟨congrArg (LoopAct.dispatch f :: ·) hRest, hr⟩

theorem yields_sendFailures {reason : Value} {calls : List Nat} {tr : List (LoopAct × Connection)}
    {r : Except Error Unit} (h : Yields (sendFailures reason calls) tr r) :
    tr.map (·.1) = calls.map (.fail · reason) ∧ r = .ok () := by
  induction calls generalizing tr with
  | nil =>
    obtain ⟨rfl, rfl⟩ := yields_done.mp h
    exact ⟨rfl, rfl⟩
  | cons call calls ih =>
    obtain ⟨conn, tr', rfl, hTail⟩ := yields_perform.mp h
    obtain ⟨hRest, hr⟩ := ih hTail
    exact ⟨congrArg (LoopAct.fail call reason :: ·) hRest, hr⟩

theorem yields_failAllPending {reason : String} {tr : List (LoopAct × Connection)}
    {r : Except Error Unit} (h : Yields (failAllPending reason) tr r) :
    FailsPending reason tr ∧ r = .ok () := by
  obtain ⟨conn, tr', rfl, hTail⟩ := yields_perform.mp h
  obtain ⟨hSends, hr⟩ := yields_sendFailures hTail
  rw [List.map_map] at hSends
  exact ⟨⟨conn, tr', rfl, hSends, fun _ _ _ => fail_sends⟩, hr⟩

/-- What pending calls fail with. -/
def Ending.reason : Ending → String
  | .closed => "connection closed"
  | .failed message => "read error: " ++ message

/-- What the loop returns. -/
def Ending.result : Ending → Except Error Unit
  | .closed => .ok ()
  | .failed message => .error (.rpc ("read: " ++ message))

section Stream

variable {chunks : List Chunk} {fs : List Frame} {rest : List UInt8}
  {tr : List (LoopAct × Connection)}

theorem receive_of_parse :
    receive M chunks [] = settle ((Frame.decoder M).parse (bytesOf chunks)) := by
  have hStart : Frame.decodeOne M [] = .ok none := (Frame.decoder M).waits
  simpa using receive_eq chunks hStart

theorem yields_receive (hParse : (Frame.decoder M).parse (bytesOf chunks) = (fs, .ok rest))
    {r : Except Error (List UInt8)} (h : Yields (receive M chunks []) tr r) :
    Dispatches fs tr ∧ r = .ok rest := by
  rw [receive_of_parse, hParse] at h
  rcases yields_bind.mp h with ⟨_, tr1, tr2, rfl, h1, h2⟩ | ⟨e, rfl, h1⟩
  · obtain ⟨rfl, rfl⟩ := yields_done.mp h2
    rw [List.append_nil]
    exact ⟨(yields_dispatchAll h1).1, rfl⟩
  · cases (yields_dispatchAll h1).2

theorem yields_run (hParse : (Frame.decoder M).parse (bytesOf chunks) = (fs, .ok rest))
    {ending : Ending} {r : Except Error Unit} (h : Yields (run M chunks ending) tr r) :
    ∃ tr1 tr2, tr = tr1 ++ tr2 ∧ Dispatches fs tr1 ∧ FailsPending ending.reason tr2 ∧
      r = ending.result := by
  rcases yields_bind.mp h with ⟨_, tr1, tr2, rfl, h1, h2⟩ | ⟨e, rfl, h1⟩
  · refine ⟨tr1, tr2, rfl, (yields_receive hParse h1).1, ?_⟩
    cases ending with
    | closed => exact yields_failAllPending h2
    | failed message =>
      rcases yields_bind.mp h2 with ⟨_, tr3, tr4, rfl, h3, h4⟩ | ⟨e, rfl, h3⟩
      · obtain ⟨rfl, rfl⟩ := yields_fail.mp h4
        rw [List.append_nil]
        exact ⟨(yields_failAllPending h3).1, rfl⟩
      · cases (yields_failAllPending h3).2
  · cases (yields_receive hParse h1).2

theorem yields_run_error {e : Error}
    (hParse : (Frame.decoder M).parse (bytesOf chunks) = (fs, .error e)) {ending : Ending}
    {r : Except Error Unit} (h : Yields (run M chunks ending) tr r) :
    ∃ tr1 tr2, tr = tr1 ++ tr2 ∧ Dispatches fs tr1 ∧
      FailsPending ("decode error: " ++ e.display) tr2 ∧ r = .error e := by
  have hReceive : receive M chunks [] = dispatchAll fs >>= fun _ =>
      failAllPending ("decode error: " ++ e.display) >>= fun _ => .fail e := by
    rw [receive_of_parse, hParse]
    rfl
  unfold Rpc.run at h
  simp only [hReceive, bind_assoc, fail_bind] at h
  rcases yields_bind.mp h with ⟨_, tr1, tr2, rfl, h1, h2⟩ | ⟨e', rfl, h1⟩
  · refine ⟨tr1, tr2, rfl, (yields_dispatchAll h1).1, ?_⟩
    rcases yields_bind.mp h2 with ⟨_, tr3, tr4, rfl, h3, h4⟩ | ⟨e', rfl, h3⟩
    · obtain ⟨rfl, rfl⟩ := yields_fail.mp h4
      rw [List.append_nil]
      exact ⟨(yields_failAllPending h3).1, rfl⟩
    · cases (yields_failAllPending h3).2
  · cases (yields_dispatchAll h1).2

end Stream

theorem accepts_all {fs : List Frame} {parts : List (List UInt8)}
    (hFaithful : ∀ f ∈ fs, M.Faithful f.envelope) (hEncode : fs.mapM (Frame.encode M) = .ok parts) :
    List.Forall₂ (fun f bytes => (Frame.decoder M).read.Accepts bytes f) fs parts := by
  induction fs generalizing parts with
  | nil =>
    cases hEncode
    exact .nil
  | cons f fs ih =>
    rw [List.mapM_cons] at hEncode
    cases hFirst : f.encode M with
    | error e =>
      rw [hFirst] at hEncode
      cases hEncode
    | ok bytes =>
      cases hRest : fs.mapM (Frame.encode M) with
      | error e =>
        rw [hFirst, hRest] at hEncode
        cases hEncode
      | ok others =>
        rw [hFirst, hRest] at hEncode
        cases hEncode
        exact .cons (Frame.accepts_encode (hFaithful f List.mem_cons_self) hFirst)
          (ih (fun g hg => hFaithful g (List.mem_cons_of_mem _ hg)) hRest)

/-- A stream of encoded frames, read in whatever chunks: at any moment the complete frames have been
dispatched, in order, and what is left is a part of the next one.  If the reads end there, or if
something malformed follows the frames, no other frame is dispatched and the requests that are
pending then fail. -/
theorem frames_of_chunks (M : MessagePack) (fs : List Frame) (parts : List (List UInt8))
    (hFaithful : ∀ f ∈ fs, M.Faithful f.envelope) (hEncode : fs.mapM (Frame.encode M) = .ok parts)
    (chunks : List Chunk) :
    (bytesOf chunks <+: parts.flatten →
      ∃ k rest, bytesOf chunks = (parts.take k).flatten ++ rest ∧
        Framing.Decoder.Unfinished rest (parts.drop k) ∧
        (bytesOf chunks = parts.flatten → fs.take k = fs ∧ rest = []) ∧
        (∀ tr r, Yields (receive M chunks []) tr r → Dispatches (fs.take k) tr ∧ r = .ok rest) ∧
        ∀ ending tr r, Yields (run M chunks ending) tr r →
          ∃ tr1 tr2, tr = tr1 ++ tr2 ∧ Dispatches (fs.take k) tr1 ∧
            FailsPending ending.reason tr2 ∧ r = ending.result) ∧
    (∀ tail, Frame.decodeOne M tail = .ok none → bytesOf chunks = parts.flatten ++ tail →
      ∀ ending tr r, Yields (run M chunks ending) tr r →
        ∃ tr1 tr2, tr = tr1 ++ tr2 ∧ Dispatches fs tr1 ∧
          FailsPending ending.reason tr2 ∧ r = ending.result) ∧
    ∀ bad e, Frame.decodeOne M bad = .error e → parts.flatten ++ bad <+: bytesOf chunks →
      ∀ ending tr r, Yields (run M chunks ending) tr r →
        ∃ tr1 tr2, tr = tr1 ++ tr2 ∧ Dispatches fs tr1 ∧
          FailsPending ("decode error: " ++ e.display) tr2 ∧ r = .error e := by
  have hAccepts := accepts_all hFaithful hEncode
  refine ⟨fun hPart => ?_, fun tail hMore hBytes ending tr r h => ?_,
    fun bad e hBad hBytes ending tr r h => ?_⟩
  · obtain ⟨k, rest, hParse, hBytes, hRest⟩ := Framing.Decoder.parse_part hAccepts hPart
    refine ⟨k, rest, hBytes, hRest, fun hWhole => ?_, fun tr r h => yields_receive hParse h,
      fun ending tr r h => yields_run hParse h⟩
    have hStream := Framing.Decoder.parse_stream hAccepts []
    have hEmpty : (Frame.decoder M).parse [] = ([], .ok []) :=
      Framing.Decoder.parse_more (Frame.decoder M).waits
    rw [hEmpty, List.append_nil, ← hWhole, hParse] at hStream
    obtain ⟨hTake, hLeft⟩ := Prod.mk.inj hStream
    exact ⟨by simpa using hTake, Except.ok.inj hLeft⟩
  · have hParse := Framing.Decoder.parse_stream hAccepts tail
    have hTail : (Frame.decoder M).parse tail = ([], .ok tail) := Framing.Decoder.parse_more hMore
    rw [hTail, List.append_nil, ← hBytes] at hParse
    exact yields_run hParse h
  · obtain ⟨more, hMore⟩ := hBytes
    have hParse := Framing.Decoder.parse_stream hAccepts (bad ++ more)
    have hTail : (Frame.decoder M).parse (bad ++ more) = ([], .error e) :=
      Framing.Decoder.parse_failed ((Frame.decoder M).sequential.failed hBad more)
    rw [hTail, List.append_nil, ← List.append_assoc, hMore] at hParse
    exact yields_run_error hParse h

def ping : Frame := .notify "p" .nil

def pingBytes : List UInt8 := [0x93, 0x02, 0xa1, 0x70, 0xc0]

theorem ping_faithful : Wire.messagePack.Faithful ping.envelope := by
  have hWrite : Wire.writeAt Wire.maxDepth ping.envelope = .ok pingBytes := by decide +kernel
  refine Wire.faithful_of_parts hWrite rfl fun k hk => ?_
  have hCases : k = 0 ∨ k = 1 ∨ k = 2 ∨ k = 3 ∨ k = 4 := by
    simp only [pingBytes, List.length_cons, List.length_nil] at hk
    omega
  rcases hCases with rfl | rfl | rfl | rfl | rfl
  · exact ⟨.invalidMarkerRead .unexpectedEof, rfl, rfl⟩
  all_goals exact ⟨.invalidDataRead .unexpectedEof, rfl, rfl⟩

def pingChunks : List Chunk := [⟨[0x93, 0x02], by simp⟩, ⟨[0xa1, 0x70, 0xc0], by simp⟩]

/-- A notification that comes in two chunks. -/
theorem ping_in_two_chunks :
    Dispatches [ping] ((receive Wire.messagePack pingChunks []).trace
        ⟨1, ∅, fun _ => .empty, ∅, ⟨[], []⟩, []⟩) ∧
      ((receive Wire.messagePack pingChunks []).run
        ⟨1, ∅, fun _ => .empty, ∅, ⟨[], []⟩, []⟩).1 = .ok [] := by
  have hFaithful : ∀ f ∈ [ping], Wire.messagePack.Faithful f.envelope := by
    intro f hf
    rw [List.mem_singleton.mp hf]
    exact ping_faithful
  have hEncode : [ping].mapM (Frame.encode Wire.messagePack) = .ok [pingBytes] := by decide +kernel
  have hChunks := (frames_of_chunks Wire.messagePack [ping] [pingBytes] hFaithful hEncode pingChunks).1
  obtain ⟨k, rest, -, -, hWhole, hReceive, -⟩ := hChunks List.prefix_rfl
  obtain ⟨hTake, rfl⟩ := hWhole rfl
  rw [hTake] at hReceive
  exact hReceive _ _ (trace_yields _ _)

end Cronymax.Rpc
