import FutureOs.Lib.Chunked
import FutureOs.Llm.Sse

/-!
# The decoder as a reader of bytes

One byte at a time, the stream is read into the unfinished line and the unfinished event
(`Reading.take`).  A push of the decoder reads its bytes so (`push_eq`), if the unfinished
line and the chunk together fit the limit, and hence a run does (`run_eq`).
-/

namespace FutureOs
namespace Llm
namespace Sse

/-- The unfinished event, and the unfinished line behind it. -/
structure Reading extends PendingEvent where
  line : Bytes

def Reading.start : Reading where
  toPendingEvent := PendingEvent.default
  line := []

/-- One more byte. -/
def Reading.take (r : Reading) (b : UInt8) : Except SseError (Reading × List SseFrame) :=
  if r.line.length + 1 > maxEventBytes then
    .error .exceeded
  else if b = lineFeed then
    match r.takeLine r.line with
    | .error e => .error e
    | .ok (p, frame) => .ok ({ toPendingEvent := p, line := [] }, frame.toList)
  else
    .ok ({ r with line := r.line ++ [b] }, [])

/-- The end of the stream ends its last line and its last event. -/
def Reading.close (r : Reading) : Except SseError (List SseFrame) :=
  if r.line ≠ [] then
    match r.take lineFeed with
    | .error e => .error e
    | .ok (r', frames) => .ok (frames ++ r'.finishFrame.2.toList)
  else
    .ok r.finishFrame.2.toList

def reader : Chunked.Reader Reading UInt8 SseFrame SseError where
  step := Reading.take
  fits := fun r chunk => r.line.length + chunk.length ≤ maxEventBytes
  refusal := .exceeded
  close := Reading.close

/-- The decoder between two pushes. -/
def Reading.decoder (r : Reading) : SseDecoder where
  toPendingEvent := r.toPendingEvent
  buffer := r.line
  scanned := r.line.length

section Lines

/-- Bytes without a line feed stay in the line. -/
theorem feed_of_not_mem
    {bytes : Bytes}
    (h : lineFeed ∉ bytes)
    {r : Reading}
    (hfit : r.line.length + bytes.length ≤ maxEventBytes) :
    Chunked.feed Reading.take r bytes = ([], .ok { r with line := r.line ++ bytes }) := by
  induction bytes generalizing r with
  | nil =>
      simp [Chunked.feed]
  | cons b bytes ih =>
      rw [List.mem_cons, not_or] at h
      rw [List.length_cons] at hfit
      have hstep : r.take b = .ok ({ r with line := r.line ++ [b] }, []) := by
        rw [Reading.take, if_neg (by omega), if_neg (Ne.symm h.1)]
      have hfit' : (r.line ++ [b]).length + bytes.length ≤ maxEventBytes := by
        rw [List.length_append, List.length_singleton]
        omega
      have hmore := ih h.2 (r := { r with line := r.line ++ [b] }) hfit'
      rw [Chunked.feed, hstep]
      simp only [hmore]
      simp

/-- A whole line, and what follows it. -/
theorem feed_line
    {bytes : Bytes}
    (h : lineFeed ∉ bytes)
    {r : Reading}
    (hfit : r.line.length + bytes.length + 1 ≤ maxEventBytes)
    (rest : Bytes) :
    Chunked.feed Reading.take r (bytes ++ lineFeed :: rest) =
      match r.takeLine (r.line ++ bytes) with
      | .error e => ([], .error e)
      | .ok (p, frame) =>
          let more := Chunked.feed Reading.take { toPendingEvent := p, line := [] } rest
          (frame.toList ++ more.1, more.2) := by
  have hlength : ¬ (r.line ++ bytes).length + 1 > maxEventBytes := by
    rw [List.length_append]
    omega
  rw [Chunked.feed_append, feed_of_not_mem h (by omega)]
  simp only [Chunked.feed, Reading.take, if_neg hlength, if_true]
  cases r.takeLine (r.line ++ bytes) with
  | error e =>
      rfl
  | ok out =>
      rfl

/-- The line that a search for its end finds. -/
theorem append_of_findIdx?
    {bytes : Bytes}
    {n : Nat}
    (h : bytes.findIdx? (· = lineFeed) = some n) :
    lineFeed ∉ bytes.take n ∧ bytes = bytes.take n ++ lineFeed :: bytes.drop (n + 1) := by
  obtain ⟨hlt, hat, hbefore⟩ := List.findIdx?_eq_some_iff_getElem.1 h
  constructor
  · intro hmem
    obtain ⟨j, hj, hget⟩ := List.mem_iff_getElem.1 hmem
    rw [List.length_take] at hj
    rw [List.getElem_take] at hget
    have := hbefore j (by omega)
    simp [hget] at this
  · have hget : bytes[n] = lineFeed := by
      simpa using hat
    rw [← hget, List.getElem_cons_drop]
    exact (List.take_append_drop n bytes).symm

end Lines

section Scan

theorem scanLines_of_none
    {buffer : Bytes}
    {consumed scanned : Nat}
    (h : (buffer.drop scanned).findIdx? (· = lineFeed) = none)
    (p : PendingEvent) :
    scanLines buffer p consumed scanned = .ok (p, consumed, []) := by
  rw [scanLines]
  split
  · rfl
  · rename_i relative hsome
    rw [h] at hsome
    cases hsome

theorem scanLines_of_some
    {buffer : Bytes}
    {consumed scanned relative : Nat}
    (h : (buffer.drop scanned).findIdx? (· = lineFeed) = some relative)
    (p : PendingEvent) :
    scanLines buffer p consumed scanned =
      match p.takeLine ((buffer.drop consumed).take (scanned + relative - consumed)) with
      | .error e => .error e
      | .ok (p', frame) =>
          match scanLines buffer p' (scanned + relative + 1) (scanned + relative + 1) with
          | .error e => .error e
          | .ok (last, stop, frames) => .ok (last, stop, frame.toList ++ frames) := by
  rw [scanLines]
  split
  · rename_i hnone
    rw [h] at hnone
    cases hnone
  · rename_i relative' hsome
    rw [h] at hsome
    cases hsome
    rfl

/-- The loop reads what was not scanned yet, behind the line that was. -/
theorem scanLines_eq
    (buffer : Bytes)
    (p : PendingEvent)
    {consumed scanned : Nat}
    (hle : consumed ≤ scanned)
    (hscanned : scanned ≤ buffer.length)
    (hfit : buffer.length ≤ maxEventBytes) :
    match Chunked.feed Reading.take
        { toPendingEvent := p, line := (buffer.drop consumed).take (scanned - consumed) }
        (buffer.drop scanned) with
    | (_, .error e) => scanLines buffer p consumed scanned = .error e
    | (frames, .ok r) => ∃ last, r.line = buffer.drop last ∧
        scanLines buffer p consumed scanned = .ok (r.toPendingEvent, last, frames) := by
  induction hleft : buffer.length - scanned using Nat.strong_induction_on
    generalizing p consumed scanned with
  | _ left ih =>
      subst hleft
      have hdrop : buffer.drop scanned = (buffer.drop consumed).drop (scanned - consumed) := by
        rw [List.drop_drop]
        congr 1
        omega
      have hline : (List.take (scanned - consumed) (buffer.drop consumed)).length =
          scanned - consumed := by
        rw [List.length_take, List.length_drop]
        omega
      have hrest : (buffer.drop scanned).length = buffer.length - scanned := List.length_drop
      cases hfind : (buffer.drop scanned).findIdx? (· = lineFeed) with
      | none =>
          have hmem : lineFeed ∉ buffer.drop scanned := by
            intro hmem
            have := List.findIdx?_eq_none_iff.1 hfind lineFeed hmem
            simp at this
          rw [feed_of_not_mem hmem (by rw [hline, hrest]; omega), scanLines_of_none hfind]
          refine ⟨consumed, ?_, rfl⟩
          rw [hdrop]
          exact List.take_append_drop _ _
      | some relative =>
          obtain ⟨hmem, hsplit⟩ := append_of_findIdx? hfind
          have hlt := (List.findIdx?_eq_some_iff_getElem.1 hfind).1
          have hread : (buffer.drop consumed).take (scanned + relative - consumed) =
              (buffer.drop consumed).take (scanned - consumed) ++
                (buffer.drop scanned).take relative := by
            have hsum : scanned + relative - consumed = (scanned - consumed) + relative := by
              omega
            rw [hsum, List.take_add, hdrop]
          have hpost : (buffer.drop scanned).drop (relative + 1) =
              buffer.drop (scanned + relative + 1) := by
            rw [List.drop_drop]
            congr 1
          rw [hpost] at hsplit
          have htake : (List.take relative (buffer.drop scanned)).length = relative := by
            rw [List.length_take]
            omega
          have hfeed := feed_line hmem
            (r := ⟨p, (buffer.drop consumed).take (scanned - consumed)⟩)
            (by rw [hline, htake]; omega) (buffer.drop (scanned + relative + 1))
          rw [← hsplit, ← hread] at hfeed
          rw [hfeed, scanLines_of_some hfind]
          cases p.takeLine ((buffer.drop consumed).take (scanned + relative - consumed)) with
          | error e =>
              rfl
          | ok out =>
              have hnext := ih (buffer.length - (scanned + relative + 1)) (by omega) out.1
                (Nat.le_refl (scanned + relative + 1)) (by omega) rfl
              rw [Nat.sub_self, List.take_zero] at hnext
              dsimp only
              cases hmore : Chunked.feed Reading.take { toPendingEvent := out.1, line := [] }
                  (buffer.drop (scanned + relative + 1)) with
              | mk frames result =>
                  rw [hmore] at hnext
                  cases result with
                  | error e =>
                      dsimp only at hnext ⊢
                      rw [hnext]
                  | ok r =>
                      obtain ⟨last, hlast, hscan⟩ := hnext
                      refine ⟨last, hlast, ?_⟩
                      rw [hscan]

end Scan

section Run

/-- A push reads its bytes, if they fit behind the unfinished line. -/
theorem push_eq (r : Reading) (bytes : Bytes) :
    r.decoder.push bytes =
      match Chunked.push reader r bytes with
      | .error e => .error e
      | .ok (r', frames) => .ok (r'.decoder, frames) := by
  have hlength : (r.line ++ bytes).length = r.line.length + bytes.length := List.length_append
  unfold SseDecoder.push Chunked.push
  by_cases hfit : r.line.length + bytes.length ≤ maxEventBytes
  · have hfits : reader.fits r bytes = true := decide_eq_true hfit
    have hscan := scanLines_eq (r.line ++ bytes) r.toPendingEvent (Nat.zero_le r.line.length)
      (by omega) (by omega)
    rw [List.drop_zero, Nat.sub_zero, List.take_left, List.drop_left] at hscan
    have hstep : reader.step = Reading.take := rfl
    rw [if_pos hfits, hstep]
    simp only [Reading.decoder, hlength, if_neg (Nat.not_lt.2 hfit)]
    cases hfeed : Chunked.feed Reading.take r bytes with
    | mk frames result =>
        rw [hfeed] at hscan
        cases result with
        | error e =>
            dsimp only at hscan ⊢
            rw [hscan]
        | ok r' =>
            obtain ⟨last, hlast, hscan⟩ := hscan
            simp only [hscan, hlast]
  · have hfits : reader.fits r bytes = false := decide_eq_false hfit
    simp only [Reading.decoder, hfits, hlength, if_pos (Nat.lt_of_not_ge hfit)]
    rfl

theorem finish_eq (r : Reading) :
    r.decoder.finish = r.close := by
  unfold SseDecoder.finish Reading.close
  by_cases hline : r.line = []
  · rw [if_neg (not_not.2 hline)]
    simp only [Reading.decoder, hline, ne_eq, not_true_eq_false, if_false]
  · rw [if_pos hline]
    -- The line feed that ends the last line is pushed like any other.
    have hpush : ({ r.decoder with buffer := r.decoder.buffer ++ [lineFeed] }).push [] =
        r.decoder.push [lineFeed] := by
      simp only [SseDecoder.push, List.append_nil]
    have hbuffer : r.decoder.buffer ≠ [] := hline
    rw [if_pos hbuffer, hpush, push_eq]
    unfold Chunked.push
    by_cases hfit : r.line.length + 1 ≤ maxEventBytes
    · have hfits : reader.fits r [lineFeed] = true := decide_eq_true hfit
      have hstep : reader.step = Reading.take := rfl
      rw [if_pos hfits, hstep]
      cases htake : r.take lineFeed with
      | error e =>
          simp only [Chunked.feed, htake]
      | ok out =>
          simp only [Chunked.feed, htake, List.append_nil]
          rfl
    · have hfits : reader.fits r [lineFeed] = false := decide_eq_false hfit
      have htake : r.take lineFeed = .error .exceeded := by
        rw [Reading.take, if_pos (Nat.lt_of_not_ge hfit)]
      simp only [hfits, htake]
      rfl

/-- The decoder's run is the reader's in the same chunks. -/
theorem run_eq (r : Reading) (chunks : List Bytes) :
    r.decoder.run chunks = Chunked.runChunks reader r chunks := by
  induction chunks generalizing r with
  | nil =>
      rw [SseDecoder.run, finish_eq]
      simp only [Chunked.runChunks, reader]
      cases r.close <;> rfl
  | cons chunk chunks ih =>
      rw [SseDecoder.run, push_eq, Chunked.runChunks]
      cases Chunked.push reader r chunk with
      | error e =>
          rfl
      | ok next =>
          dsimp only
          rw [ih]

end Run

end Sse
end Llm
end FutureOs
