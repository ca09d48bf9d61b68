import Mathlib.Data.List.Basic
import Thther.Server.SessionShared

/-!
# The writer thread of a session's PTY (`spawn_session` in `server/session.rs`)

The thread takes the messages of `send_input` and `resize` one by one.  A failing `write_all` has
written a part of the input and ends the thread; a failing `resize` is ignored.

`PtyWriter.Ok` says what the thread has done with the messages it has taken.
-/

namespace Thther

/-- The thread, and the PTY it owns. -/
structure PtyWriter where
  /-- How many messages `rx.recv()` has returned. -/
  handled : ℕ
  /-- What has been written to the PTY. -/
  written : List UInt8
  size : UInt16 × UInt16
  /-- The loop has not been left. -/
  running : Bool
  deriving DecidableEq

/-- The thread when it starts, with the size given to `openpty`. -/
def PtyWriter.new (size : UInt16 × UInt16) : PtyWriter where
  handled := 0
  written := []
  size
  running := true

/-- The outcome of the call on the PTY. -/
inductive PtyCall
  | succeeds
  /-- `write_all` fails with that many bytes written, or `resize` fails. -/
  | fails (n : ℕ)
  deriving DecidableEq

/-- The body of the loop; `write_all` does not fail once everything is written. -/
def PtyWriter.handle (w : PtyWriter) (call : PtyCall) : PtyMsg → Option PtyWriter
  | .input bytes =>
    match call with
    | .succeeds => some { w with handled := w.handled + 1, written := w.written ++ bytes }
    | .fails n =>
      if n < bytes.length then
        some { w with
          handled := w.handled + 1
          written := w.written ++ bytes.take n
          running := false }
      else none
  | .resize cols rows =>
    match call with
    | .succeeds => some { w with handled := w.handled + 1, size := (cols, rows) }
    | .fails _ => some { w with handled := w.handled + 1 }

/-- One iteration, on the messages sent so far. -/
def ptyWriterStep (msgs : List PtyMsg) (w : PtyWriter) (call : PtyCall) : Option PtyWriter :=
  if w.running then
    match msgs[w.handled]? with
    | some m => w.handle call m
    | none => none
  else none

/-- The bytes of the `Input` messages, concatenated. -/
def inputBytes (msgs : List PtyMsg) : List UInt8 :=
  msgs.flatMap fun
    | .input bytes => bytes
    | .resize _ _ => []

/-- The sizes of the `Resize` messages. -/
def sizes (msgs : List PtyMsg) : List (UInt16 × UInt16) :=
  msgs.filterMap fun
    | .input _ => none
    | .resize cols rows => some (cols, rows)

@[simp] theorem inputBytes_append (l m : List PtyMsg) :
    inputBytes (l ++ m) = inputBytes l ++ inputBytes m := List.flatMap_append

@[simp] theorem inputBytes_singleton (m : PtyMsg) :
    inputBytes [m] = match m with
      | .input bytes => bytes
      | .resize _ _ => [] := by
  cases m <;> simp [inputBytes]

@[simp] theorem sizes_append (l m : List PtyMsg) : sizes (l ++ m) = sizes l ++ sizes m :=
  List.filterMap_append

theorem inputBytes_isPrefix {l m : List PtyMsg} (h : l <+: m) : inputBytes l <+: inputBytes m := by
  obtain ⟨t, rfl⟩ := h
  rw [inputBytes_append]
  exact List.prefix_append _ _

/-- What the thread has done: as long as it runs, every input it has taken is written whole; after
a failed write, all but the last one, and a part of that; and the size is one it was sent, or the
first one. -/
structure PtyWriter.Ok (size : UInt16 × UInt16) (msgs : List PtyMsg) (w : PtyWriter) : Prop where
  handled : w.handled ≤ msgs.length
  whole : w.running = true → w.written = inputBytes (msgs.take w.handled)
  part : w.running = false → ∃ n bytes k, w.handled = n + 1 ∧ msgs[n]? = some (.input bytes) ∧
    k < bytes.length ∧ w.written = inputBytes (msgs.take n) ++ bytes.take k
  size : w.size ∈ size :: sizes (msgs.take w.handled)

variable {size : UInt16 × UInt16} {msgs : List PtyMsg} {w w' : PtyWriter}

theorem PtyWriter.ok_new (size : UInt16 × UInt16) : (PtyWriter.new size).Ok size [] where
  handled := Nat.le_refl 0
  whole _ := rfl
  part := nofun
  size := List.mem_cons_self

/-- More messages are sent. -/
theorem PtyWriter.Ok.send (h : w.Ok size msgs) (more : List PtyMsg) :
    w.Ok size (msgs ++ more) where
  handled := by
    have := h.handled
    rw [List.length_append]
    omega
  whole hr := by
    rw [List.take_append_of_le_length h.handled]
    exact h.whole hr
  part hr := by
    obtain ⟨n, bytes, k, hn, hget, hk, hwritten⟩ := h.part hr
    have hlt := (List.getElem?_eq_some_iff.1 hget).1
    refine ⟨n, bytes, k, hn, ?_, hk, ?_⟩
    · rw [List.getElem?_append_left hlt, hget]
    · rw [List.take_append_of_le_length (Nat.le_of_lt hlt)]
      exact hwritten
  size := by
    rw [List.take_append_of_le_length h.handled]
    exact h.size

/-- One iteration. -/
theorem PtyWriter.Ok.step {call : PtyCall} (h : w.Ok size msgs)
    (hs : ptyWriterStep msgs w call = some w') : w'.Ok size msgs := by
  unfold ptyWriterStep at hs
  split_ifs at hs with hrun
  cases hm : msgs[w.handled]? with
  | none =>
    rw [hm] at hs
    cases hs
  | some m =>
    rw [hm] at hs
    dsimp only at hs
    obtain ⟨hlt, -⟩ := List.getElem?_eq_some_iff.1 hm
    have hnext : msgs.take (w.handled + 1) = msgs.take w.handled ++ [m] := by
      rw [List.take_add_one, hm]
      rfl
    have hwhole := h.whole hrun
    have hsize := h.size
    cases m with
    | input bytes =>
      cases call with
      | succeeds =>
        cases hs
        refine ⟨hlt, fun _ => ?_, by simp [hrun], ?_⟩
        · dsimp only
          rw [hnext, inputBytes_append, hwhole, inputBytes_singleton]
        · dsimp only
          rw [hnext, sizes_append, show sizes [PtyMsg.input bytes] = [] from rfl, List.append_nil]
          exact hsize
      | fails n =>
        simp only [PtyWriter.handle] at hs
        split_ifs at hs with hn
        cases hs
        refine ⟨hlt, by simp, fun _ => ⟨_, bytes, n, rfl, hm, hn, ?_⟩, ?_⟩
        · dsimp only
          rw [hwhole]
        · dsimp only
          rw [hnext, sizes_append, show sizes [PtyMsg.input bytes] = [] from rfl, List.append_nil]
          exact hsize
    | resize cols rows =>
      have hsizes : sizes (msgs.take (w.handled + 1)) =
          sizes (msgs.take w.handled) ++ [(cols, rows)] := by
        rw [hnext, sizes_append]
        rfl
      have hinput : inputBytes (msgs.take (w.handled + 1)) = w.written := by
        rw [hnext, inputBytes_append, hwhole, inputBytes_singleton, List.append_nil]
      cases call with
      | succeeds =>
        cases hs
        refine ⟨hlt, fun _ => hinput.symm, by simp [hrun], ?_⟩
        dsimp only
        rw [hsizes]
        simp
      | fails n =>
        cases hs
        refine ⟨hlt, fun _ => hinput.symm, by simp [hrun], ?_⟩
        dsimp only
        rw [hsizes, ← List.cons_append]
        exact List.mem_append_left _ hsize

/-- The thread writes the inputs in the order they are sent, and nothing else. -/
theorem PtyWriter.Ok.written_isPrefix (h : w.Ok size msgs) : w.written <+: inputBytes msgs := by
  cases hr : w.running with
  | true =>
    rw [h.whole hr]
    exact inputBytes_isPrefix (List.take_prefix _ _)
  | false =>
    obtain ⟨n, bytes, k, -, hget, -, hwritten⟩ := h.part hr
    have hnext : msgs.take (n + 1) = msgs.take n ++ [.input bytes] := by
      rw [List.take_add_one, hget]
      rfl
    have hle := inputBytes_isPrefix (List.take_prefix (n + 1) msgs)
    rw [hnext, inputBytes_append, inputBytes_singleton] at hle
    rw [hwritten]
    exact ((List.prefix_append_right_inj _).2 (List.take_prefix k bytes)).trans hle

end Thther
