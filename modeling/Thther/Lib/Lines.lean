import Mathlib.Data.List.Basic
import Mathlib.Data.List.Infix

/-!
# Text in lines

White space as Unicode has it, lines that end in `\n` or `\r\n`, and the last line that is not
blank.

* `lines_append`: the lines of two texts, the first of which ends in a line end;
* `lastLine_printed`: the last line printed is the last line found;
* `trim_isPrefix`: the part of a line that has arrived, without the white space at its end.
-/

namespace Lines

/-- Unicode `White_Space`. -/
def isSpace (c : Char) : Bool :=
  (9 ≤ c.toNat ∧ c.toNat ≤ 13) ∨ c.toNat ∈ [0x20, 0x85, 0xa0, 0x1680, 0x2028, 0x2029, 0x202f,
    0x205f, 0x3000] ∨ (0x2000 ≤ c.toNat ∧ c.toNat ≤ 0x200a)

/-- The text without the white space at both ends. -/
def trim (cs : List Char) : List Char :=
  ((cs.dropWhile isSpace).reverse.dropWhile isSpace).reverse

/-- A line without the `\r` at its end. -/
def dropCr (l : List Char) : List Char := if l.getLast? = some '\r' then l.dropLast else l

/-- The lines of a text that continues the line `l`; what follows the last line end is a line
unless it is empty. -/
def linesFrom (l : List Char) : List Char → List (List Char)
  | [] => if l = [] then [] else [l]
  | c :: cs => if c = '\n' then dropCr l :: linesFrom [] cs else linesFrom (l ++ [c]) cs

def lines (cs : List Char) : List (List Char) := linesFrom [] cs

/-- The last line that is not blank. -/
def lastLine (cs : List Char) : Option (List Char) :=
  (lines cs).reverse.find? fun l => trim l ≠ []

/-- One line, without its end: not blank, and no white space around it. -/
structure OneLine (l : List Char) : Prop where
  ne_nil : l ≠ []
  no_newline : '\n' ∉ l
  trimmed : trim l = l

instance (l : List Char) : Decidable (OneLine l) :=
  decidable_of_iff (l ≠ [] ∧ '\n' ∉ l ∧ trim l = l)
    ⟨fun h => ⟨h.1, h.2.1, h.2.2⟩, fun h => ⟨h.ne_nil, h.no_newline, h.trimmed⟩⟩

variable {l m : List Char}

/-- The text is empty or ends in a line end. -/
def Whole (cs : List Char) : Prop := cs = [] ∨ cs.getLast? = some '\n'

theorem linesFrom_append (l cs ds : List Char) :
    linesFrom l (cs ++ '\n' :: ds) = linesFrom l (cs ++ ['\n']) ++ lines ds := by
  induction cs generalizing l with
  | nil => rfl
  | cons c cs ih =>
    rw [List.cons_append, List.cons_append, linesFrom, linesFrom]
    split_ifs
    · rw [ih, List.cons_append]
    · exact ih _

theorem lines_append {cs : List Char} (h : Whole cs) (ds : List Char) :
    lines (cs ++ ds) = lines cs ++ lines ds := by
  rcases h with rfl | h
  · rfl
  · obtain ⟨pre, rfl⟩ := List.getLast?_eq_some_iff.1 h
    rw [List.append_assoc, List.singleton_append]
    exact linesFrom_append [] pre ds

theorem linesFrom_line (l : List Char) {m : List Char} (hm : '\n' ∉ m) :
    linesFrom l (m ++ ['\n']) = [dropCr (l ++ m)] := by
  induction m generalizing l with
  | nil => simp [linesFrom]
  | cons c m ih =>
    rw [List.mem_cons, not_or] at hm
    obtain ⟨hc, hm⟩ := hm
    rw [List.cons_append, linesFrom, if_neg (Ne.symm hc), ih _ hm, List.append_assoc,
      List.singleton_append]

theorem dropWhile_of_trimmed (h : OneLine l) :
    l.dropWhile isSpace = l ∧ l.reverse.dropWhile isSpace = l.reverse := by
  have hle := (List.dropWhile_sublist isSpace (l := l)).length_le
  have hle' := (List.dropWhile_sublist isSpace (l := (l.dropWhile isSpace).reverse)).length_le
  have hlen := congrArg List.length h.trimmed
  rw [trim, List.length_reverse] at hlen
  rw [List.length_reverse] at hle'
  have hfirst : l.dropWhile isSpace = l :=
    (List.dropWhile_sublist isSpace).eq_of_length (by omega)
  refine ⟨hfirst, ?_⟩
  have htrim := h.trimmed
  rw [trim, hfirst] at htrim
  rw [← List.reverse_reverse (l.reverse.dropWhile isSpace), htrim]

theorem dropCr_of_oneLine (h : OneLine l) : dropCr l = l := by
  unfold dropCr
  rw [if_neg]
  intro hlast
  obtain ⟨pre, rfl⟩ := List.getLast?_eq_some_iff.1 hlast
  have hdrop := (dropWhile_of_trimmed h).2
  have hspace : isSpace '\r' = true := by decide
  rw [List.reverse_append, List.reverse_singleton, List.singleton_append,
    List.dropWhile_cons_of_pos hspace] at hdrop
  have hlen := congrArg List.length hdrop
  have hle := (List.dropWhile_sublist isSpace (l := pre.reverse)).length_le
  rw [List.length_cons] at hlen
  omega

/-- **The line printed is the line found**, whatever whole lines come before it. -/
theorem lastLine_printed {noise : List Char} (hnoise : Whole noise) (h : OneLine l) :
    lastLine (noise ++ (l ++ ['\n'])) = some l := by
  have hlines : lines (l ++ ['\n']) = [l] := by
    rw [lines, linesFrom_line [] h.no_newline, List.nil_append, dropCr_of_oneLine h]
  rw [lastLine, lines_append hnoise, hlines, List.reverse_append, List.reverse_singleton,
    List.singleton_append, List.find?_cons_of_pos]
  simpa [h.trimmed] using h.ne_nil

/-- The first character of a line is no white space. -/
theorem OneLine.exists_cons (h : OneLine l) : ∃ c t, l = c :: t ∧ isSpace c = false := by
  cases l with
  | nil => exact absurd rfl h.ne_nil
  | cons c t =>
    refine ⟨c, t, rfl, Bool.eq_false_iff.2 fun hc => ?_⟩
    have hdrop := (dropWhile_of_trimmed h).1
    rw [List.dropWhile_cons_of_pos hc] at hdrop
    have hlen := congrArg List.length hdrop
    have hle := (List.dropWhile_sublist isSpace (l := t)).length_le
    rw [List.length_cons] at hlen
    omega

theorem trim_cons {c : Char} (hc : isSpace c = false) (cs : List Char) :
    trim (c :: cs) = ((c :: cs).reverse.dropWhile isSpace).reverse := by
  rw [trim, List.dropWhile_cons_of_neg (by simp [hc])]

/-- A line read with its end. -/
theorem trim_line (h : OneLine l) : trim (l ++ ['\n']) = l := by
  obtain ⟨c, t, rfl, hc⟩ := h.exists_cons
  have hspace : isSpace '\n' = true := by decide
  rw [List.cons_append, trim_cons hc, ← List.cons_append, List.reverse_append,
    List.reverse_singleton, List.singleton_append, List.dropWhile_cons_of_pos hspace,
    (dropWhile_of_trimmed h).2, List.reverse_reverse]

/-- Of what has arrived of a line, without the white space at its end, nothing is missing or it is
a shorter part. -/
theorem trim_isPrefix (h : OneLine l) (hm : m <+: l ++ ['\n']) :
    trim m = l ∨ trim m <+: l ∧ trim m ≠ l := by
  rcases List.prefix_concat_iff.1 hm with rfl | hm
  · exact .inl (trim_line h)
  · by_cases hml : m = l
    · rw [hml]
      exact .inl h.trimmed
    · right
      obtain ⟨c, t, rfl, hc⟩ := h.exists_cons
      have hpart : trim m <+: m := by
        cases m with
        | nil => exact List.prefix_rfl
        | cons d m =>
          obtain ⟨rfl, -⟩ := List.cons_prefix_cons.1 hm
          rw [trim_cons hc]
          have hsuffix := List.dropWhile_suffix isSpace (l := (d :: m).reverse)
          rwa [← List.reverse_prefix, List.reverse_reverse] at hsuffix
      refine ⟨hpart.trans hm, fun heq => hml ?_⟩
      rw [heq] at hpart
      exact hm.eq_of_length_le hpart.length_le

end Lines
