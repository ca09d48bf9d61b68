import Thther.Proto.Frame

/-!
# The replay ring buffer (`server/session.rs`)

`RingBuf` keeps the last `cap` bytes of the PTY output, indexed by absolute byte offsets.

`RingBuf.Holds r S` says that `r` is the window over the end of the stream `S`; `append` keeps it
(`Holds.append`) and `readFrom` reads the stream through it (`Holds.readFrom_of_le`,
`Holds.readFrom_of_lt`).  `serverWriterRead` is what one iteration of `server_writer` does with the
ring.  `ring_is_window` puts the two together for any sequence of appends and of reads.
-/

namespace Thther

/-- Ring buffer of recent PTY output, indexed by absolute output byte offset. -/
structure RingBuf where
  data : List UInt8
  start : UInt64
  cap : ℕ
  deriving DecidableEq

/-- `RingBuf::new`. -/
def RingBuf.new (cap : ℕ) : RingBuf := { data := [], start := 0, cap }

/-- `RingBuf::total`. -/
def RingBuf.total (r : RingBuf) : UInt64 := r.start + UInt64.ofNat r.data.length

/-- `RingBuf::append`. -/
def RingBuf.append (r : RingBuf) (bytes : List UInt8) : RingBuf :=
  let data := r.data ++ bytes
  if r.cap < data.length then
    let dropN := data.length - r.cap
    { r with data := data.drop dropN, start := r.start + UInt64.ofNat dropN }
  else { r with data }

/-- `RingBuf::read_from`: a bounded chunk at or after `offset`, with its actual start. -/
def RingBuf.readFrom (r : RingBuf) (offset : UInt64) : UInt64 × List UInt8 :=
  let total := r.total
  if total ≤ offset then (total, [])
  else
    let from_ := max offset r.start
    let idx := (from_ - r.start).toNat
    (from_, (r.data.drop idx).take maxOutputBytes)

/-- The read of one `server_writer` iteration: the `Output` frame to send and the next cursor, or
nothing when the cursor has caught up. -/
def serverWriterRead (ring : RingBuf) (cursor : UInt64) : Option (Frame × UInt64) :=
  let (offset, data) := ring.readFrom cursor
  if data ≠ [] ∨ cursor < offset then
    some (.output offset data, offset + UInt64.ofNat data.length)
  else none

/-- `append` moves the total, also where it wraps. -/
theorem RingBuf.total_append (r : RingBuf) (bytes : List UInt8) :
    (r.append bytes).total = r.total + UInt64.ofNat bytes.length := by
  have hsum : r.total + UInt64.ofNat bytes.length =
      r.start + UInt64.ofNat (r.data ++ bytes).length := by
    rw [RingBuf.total, List.length_append, UInt64.ofNat_add, UInt64.add_assoc]
  rw [hsum]
  unfold RingBuf.append
  dsimp only
  split_ifs with hcap
  · rw [RingBuf.total, List.length_drop, UInt64.add_assoc, ← UInt64.ofNat_add]
    congr 2
    omega
  · rfl

/-- A cursor at or above the total has nothing to read. -/
theorem serverWriterRead_of_total_le {r : RingBuf} {cursor : UInt64} (h : r.total ≤ cursor) :
    serverWriterRead r cursor = none := by
  have hread : r.readFrom cursor = (r.total, []) := if_pos h
  have hnot : ¬ ([] ≠ ([] : List UInt8) ∨ cursor < r.total) := by
    simpa using h
  rw [serverWriterRead, hread]
  exact if_neg hnot

/-! ### The window over a stream -/

/-- `r` holds the last `cap` bytes of the stream `S`. -/
structure RingBuf.Holds (r : RingBuf) (S : List UInt8) : Prop where
  start : r.start.toNat = S.length - r.cap
  data : r.data = S.drop (S.length - r.cap)

theorem RingBuf.holds_new (cap : ℕ) : (RingBuf.new cap).Holds [] where
  start := by simp [RingBuf.new]
  data := by simp [RingBuf.new]

section Holds

variable {r : RingBuf} {S : List UInt8}

theorem RingBuf.Holds.length_data (h : r.Holds S) : r.data.length = min r.cap S.length := by
  rw [h.data, List.length_drop]
  omega

theorem RingBuf.Holds.start_add_length (h : r.Holds S) :
    r.start.toNat + r.data.length = S.length := by
  rw [h.length_data, h.start]
  omega

theorem RingBuf.Holds.start_le (h : r.Holds S) : r.start.toNat ≤ S.length := by
  rw [h.start]
  omega

theorem RingBuf.Holds.toNat_total (h : r.Holds S) (hS : S.length < 2 ^ 64) :
    r.total.toNat = S.length := by
  have hsum := h.start_add_length
  rw [RingBuf.total, toNat_add_ofNat (by omega), hsum]

/-- `append` slides the window along the stream. -/
theorem RingBuf.Holds.append (h : r.Holds S) (bytes : List UInt8)
    (hS : (S ++ bytes).length < 2 ^ 64) : (r.append bytes).Holds (S ++ bytes) := by
  have hdata := h.data
  have hlen := h.length_data
  have hstart := h.start
  rw [List.length_append] at hS
  have hwhole : r.data ++ bytes = (S ++ bytes).drop (S.length - r.cap) := by
    rw [List.drop_append_of_le_length (Nat.sub_le _ _), ← hdata]
  unfold RingBuf.append
  dsimp only
  rw [List.length_append]
  split_ifs with hcap
  · refine ⟨?_, ?_⟩
    · dsimp only
      rw [toNat_add_ofNat (by omega), hstart, List.length_append]
      omega
    · dsimp only
      rw [hwhole, List.drop_drop, List.length_append]
      congr 1
      omega
  · -- either everything still fits, or nothing was appended to a full buffer
    have hsame : (S ++ bytes).length - r.cap = S.length - r.cap := by
      rw [List.length_append]; omega
    refine ⟨?_, ?_⟩
    · dsimp only
      rw [hstart, hsame]
    · dsimp only
      rw [hwhole, hsame]

theorem RingBuf.Holds.readFrom_of_le (h : r.Holds S) (hS : S.length < 2 ^ 64) {offset : UInt64}
    (ho : S.length ≤ offset.toNat) : r.readFrom offset = (r.total, []) := by
  have ht := h.toNat_total hS
  rw [RingBuf.readFrom, if_pos (by rw [UInt64.le_iff_toNat_le]; omega)]

theorem toNat_max (a b : UInt64) : (max a b).toNat = max a.toNat b.toNat := by
  have hmax : max a b = if a ≤ b then b else a := rfl
  rw [hmax]
  split_ifs with h <;> rw [UInt64.le_iff_toNat_le] at h <;> omega

/-- Behind the end of the stream, a read starts at the offset or at the first retained byte. -/
theorem RingBuf.Holds.readFrom_of_lt (h : r.Holds S) (hS : S.length < 2 ^ 64) {offset : UInt64}
    (ho : offset.toNat < S.length) :
    (r.readFrom offset).1.toNat = max offset.toNat r.start.toNat ∧
      (r.readFrom offset).2 =
        (S.drop (max offset.toNat r.start.toNat)).take maxOutputBytes := by
  have ht := h.toNat_total hS
  have hstart := h.start
  rw [RingBuf.readFrom, if_neg (by rw [UInt64.le_iff_toNat_le]; omega)]
  have hsub : (max offset r.start - r.start).toNat =
      max offset.toNat r.start.toNat - r.start.toNat := by
    rw [UInt64.toNat_sub_of_le _ _ (by rw [UInt64.le_iff_toNat_le, toNat_max]; omega), toNat_max]
  refine ⟨toNat_max _ _, ?_⟩
  dsimp only
  rw [hsub, h.data, List.drop_drop, ← hstart]
  congr 2
  omega

end Holds

/-! ### The read of a `server_writer` iteration -/

/-- What an iteration sends follows the cursor, agrees with the stream, skips evicted bytes only
and advances the cursor. -/
theorem RingBuf.Holds.serverWriterRead_eq_some {r : RingBuf} {S : List UInt8} (h : r.Holds S)
    (hS : S.length < 2 ^ 64) {cursor cursor' : UInt64} {f : Frame}
    (hr : serverWriterRead r cursor = some (f, cursor')) (hc : cursor.toNat ≤ S.length) :
    ∃ offset data, f = .output offset data ∧ data.length ≤ maxOutputBytes ∧
      cursor'.toNat = offset.toNat + data.length ∧ cursor'.toNat ≤ S.length ∧
      cursor.toNat ≤ offset.toNat ∧ cursor.toNat < cursor'.toNat ∧ data <+: S.drop offset.toNat ∧
      (cursor.toNat < offset.toNat → offset.toNat = r.start.toNat) := by
  unfold serverWriterRead at hr
  dsimp only at hr
  split_ifs at hr with hcond
  simp only [Option.some.injEq, Prod.mk.injEq] at hr
  obtain ⟨rfl, rfl⟩ := hr
  by_cases hlt : cursor.toNat < S.length
  · obtain ⟨hoff, hdata⟩ := h.readFrom_of_lt hS hlt
    have hstart := h.start_le
    have hlen : (r.readFrom cursor).2.length =
        min maxOutputBytes (S.length - max cursor.toNat r.start.toNat) := by
      rw [hdata, List.length_take, List.length_drop]
    have hnext : ((r.readFrom cursor).1 + UInt64.ofNat (r.readFrom cursor).2.length).toNat =
        (r.readFrom cursor).1.toNat + (r.readFrom cursor).2.length :=
      toNat_add_ofNat (by omega)
    refine ⟨_, _, rfl, by omega, hnext, by omega, by omega, ?_, ?_, by omega⟩
    · -- a nonempty chunk, or a gap
      rcases hcond with hne | hgap
      · have := List.length_pos_iff.2 hne
        omega
      · rw [UInt64.lt_iff_toNat_lt] at hgap
        omega
    · rw [hdata, hoff]
      exact List.take_prefix _ _
  · rw [h.readFrom_of_le hS (by omega)] at hcond
    rcases hcond with hne | hgap
    · exact absurd rfl hne
    · rw [UInt64.lt_iff_toNat_lt, h.toNat_total hS] at hgap
      omega

/-- Whatever the ring holds, what an iteration sends is an `Output` of bounded length. -/
theorem serverWriterRead_output {r : RingBuf} {cursor cursor' : UInt64} {f : Frame}
    (h : serverWriterRead r cursor = some (f, cursor')) :
    ∃ offset data, f = .output offset data ∧ data.length ≤ maxOutputBytes := by
  unfold serverWriterRead at h
  dsimp only at h
  split_ifs at h
  cases h
  refine ⟨_, _, rfl, ?_⟩
  unfold RingBuf.readFrom
  dsimp only
  split_ifs
  · exact Nat.zero_le _
  · rw [List.length_take]
    exact Nat.min_le_left _ _

/-- An iteration finds nothing to send only when the cursor has reached the end of the stream. -/
theorem RingBuf.Holds.serverWriterRead_eq_none {r : RingBuf} {S : List UInt8} (h : r.Holds S)
    (hS : S.length < 2 ^ 64) {cursor : UInt64} (hr : serverWriterRead r cursor = none) :
    S.length ≤ cursor.toNat := by
  by_contra hge
  have hlt : cursor.toNat < S.length := Nat.lt_of_not_le hge
  obtain ⟨hoff, hdata⟩ := h.readFrom_of_lt hS hlt
  unfold serverWriterRead at hr
  dsimp only at hr
  split_ifs at hr with hcond
  rw [not_or, ne_eq, not_not, UInt64.lt_iff_toNat_lt] at hcond
  obtain ⟨hnil, hle⟩ := hcond
  have hlen : (r.readFrom cursor).2.length =
      min maxOutputBytes (S.length - max cursor.toNat r.start.toNat) := by
    rw [hdata, List.length_take, List.length_drop]
  rw [hnil, List.length_nil] at hlen
  have hmax : maxOutputBytes = 65536 := rfl
  -- the cursor is inside the window, so the chunk holds at least one byte
  omega

/-! ### Any sequence of appends, any sequence of reads -/

/-- The buffer after a sequence of appends. -/
def RingBuf.appends (cap : ℕ) (chunks : List (List UInt8)) : RingBuf :=
  chunks.foldl RingBuf.append (RingBuf.new cap)

theorem RingBuf.append_cap (r : RingBuf) (bytes : List UInt8) : (r.append bytes).cap = r.cap := by
  unfold RingBuf.append
  dsimp only
  split_ifs <;> rfl

theorem RingBuf.cap_foldl_append (r : RingBuf) (chunks : List (List UInt8)) :
    (chunks.foldl RingBuf.append r).cap = r.cap := by
  induction chunks generalizing r with
  | nil => rfl
  | cons bytes chunks ih => rw [List.foldl_cons, ih, RingBuf.append_cap]

@[simp] theorem RingBuf.appends_cap (cap : ℕ) (chunks : List (List UInt8)) :
    (RingBuf.appends cap chunks).cap = cap := RingBuf.cap_foldl_append _ _

theorem RingBuf.Holds.foldl_append {r : RingBuf} {S : List UInt8} (h : r.Holds S)
    (chunks : List (List UInt8)) (hS : (S ++ chunks.flatten).length < 2 ^ 64) :
    (chunks.foldl RingBuf.append r).Holds (S ++ chunks.flatten) := by
  induction chunks generalizing r S with
  | nil =>
    rw [List.flatten_nil, List.append_nil]
    exact h
  | cons bytes chunks ih =>
    rw [List.flatten_cons, ← List.append_assoc] at hS ⊢
    have hb : (S ++ bytes).length < 2 ^ 64 := by
      rw [List.length_append] at hS
      omega
    exact ih (h.append bytes hb) hS

theorem RingBuf.holds_appends (cap : ℕ) {chunks : List (List UInt8)}
    (hS : chunks.flatten.length < 2 ^ 64) :
    (RingBuf.appends cap chunks).Holds chunks.flatten :=
  (RingBuf.holds_new cap).foldl_append chunks hS

/-- `n` reads, each from the end of the one before: the bytes read and the last end. -/
def RingBuf.readOn (r : RingBuf) : ℕ → UInt64 → List UInt8 × UInt64
  | 0, cursor => ([], cursor)
  | n + 1, cursor =>
    let (offset, data) := r.readFrom cursor
    let (rest, end_) := r.readOn n (offset + UInt64.ofNat data.length)
    (data ++ rest, end_)

section Reads

variable {r : RingBuf} {S : List UInt8}

/-- One read behind the end of the stream: a chunk of the stream, and where the next one starts. -/
theorem RingBuf.Holds.readOn_one (h : r.Holds S) (hS : S.length < 2 ^ 64) {cursor : UInt64}
    (hc : cursor.toNat < S.length) (n : ℕ) :
    ∃ next : UInt64,
      next.toNat = min (max cursor.toNat r.start.toNat + maxOutputBytes) S.length ∧
      r.readOn (n + 1) cursor =
        ((S.drop (max cursor.toNat r.start.toNat)).take maxOutputBytes ++ (r.readOn n next).1,
          (r.readOn n next).2) := by
  obtain ⟨hoff, hdata⟩ := h.readFrom_of_lt hS hc
  have hstart := h.start_le
  have hlen : (r.readFrom cursor).2.length =
      min maxOutputBytes (S.length - max cursor.toNat r.start.toNat) := by
    rw [hdata, List.length_take, List.length_drop]
  have hnext := toNat_add_ofNat (a := (r.readFrom cursor).1)
    (n := (r.readFrom cursor).2.length) (by omega)
  refine ⟨(r.readFrom cursor).1 + UInt64.ofNat (r.readFrom cursor).2.length, ?_, ?_⟩
  · omega
  · rw [← hdata]
    rfl

/-- From inside the window, `n` reads of `maxOutputBytes` each return the next stretch of the
stream, as far as it goes. -/
theorem RingBuf.Holds.readOn_eq (h : r.Holds S) (hS : S.length < 2 ^ 64) (n : ℕ)
    {cursor : UInt64} (hlo : r.start.toNat ≤ cursor.toNat) (hhi : cursor.toNat ≤ S.length) :
    (r.readOn n cursor).1 = (S.drop cursor.toNat).take (n * maxOutputBytes) ∧
      (r.readOn n cursor).2.toNat = min (cursor.toNat + n * maxOutputBytes) S.length := by
  induction n generalizing cursor with
  | zero =>
    rw [Nat.zero_mul, Nat.add_zero, List.take_zero, Nat.min_eq_left hhi]
    exact ⟨rfl, rfl⟩
  | succ n ih =>
    rw [Nat.succ_mul]
    rcases Nat.lt_or_eq_of_le hhi with hlt | heq
    · obtain ⟨next, hnext, hread⟩ := h.readOn_one hS hlt n
      rw [Nat.max_eq_left hlo] at hnext hread
      obtain ⟨hbytes, hend⟩ := @ih next (by omega) (by omega)
      rw [hread]
      dsimp only
      refine ⟨?_, by omega⟩
      rw [hbytes, Nat.add_comm (n * maxOutputBytes), List.take_add, List.drop_drop]
      congr 1
      rcases Nat.le_total (cursor.toNat + maxOutputBytes) S.length with hle | hle
      · rw [hnext, Nat.min_eq_left hle]
      · -- the first read took all there is
        rw [hnext, Nat.min_eq_right hle, List.drop_eq_nil_of_le (Nat.le_refl _),
          List.drop_eq_nil_of_le hle]
    · have hcaught : r.readFrom cursor = (r.total, []) := h.readFrom_of_le hS (by omega)
      have htotal : r.total = cursor := by
        rw [← UInt64.toNat_inj, h.toNat_total hS, heq]
      have hstep : r.readOn (n + 1) cursor = r.readOn n cursor := by
        show (let (offset, data) := r.readFrom cursor
          let (rest, end_) := r.readOn n (offset + UInt64.ofNat data.length)
          (data ++ rest, end_)) = _
        rw [hcaught, htotal]
        simp
      rw [hstep]
      obtain ⟨hbytes, hend⟩ := ih hlo hhi
      rw [List.drop_eq_nil_of_le (by omega), List.take_nil] at hbytes ⊢
      exact ⟨hbytes, by omega⟩

/-- What a sequence of reads returns depends on its first read. -/
theorem RingBuf.readOn_congr {c c' : UInt64} (h : r.readFrom c = r.readFrom c') (n : ℕ) :
    r.readOn (n + 1) c = r.readOn (n + 1) c' := by
  unfold RingBuf.readOn
  rw [h]

/-- Evicted offsets read as the first retained one. -/
theorem RingBuf.Holds.readFrom_of_le_start (h : r.Holds S) (hS : S.length < 2 ^ 64)
    {offset : UInt64} (ho : offset.toNat ≤ r.start.toNat) :
    r.readFrom offset = r.readFrom r.start := by
  have ht := h.toNat_total hS
  have hstart := h.start_le
  by_cases hend : r.total ≤ offset
  · have heq : offset = r.start := by
      rw [UInt64.le_iff_toNat_le] at hend
      rw [← UInt64.toNat_inj]
      omega
    rw [heq]
  · have hmax : max offset r.start = r.start := by
      rw [← UInt64.toNat_inj, toNat_max, Nat.max_eq_right ho]
    have hself : max r.start r.start = r.start := by
      rw [← UInt64.toNat_inj, toNat_max, Nat.max_self]
    unfold RingBuf.readFrom
    dsimp only
    rw [if_neg hend, hmax, hself, UInt64.sub_self]
    split_ifs with htop
    · -- nothing is retained
      rw [UInt64.le_iff_toNat_le] at htop
      have hlen := h.start_add_length
      have hnil : r.data = [] := List.length_eq_zero_iff.1 (by omega)
      have htotal : r.total = r.start := by
        rw [← UInt64.toNat_inj]
        omega
      rw [hnil, htotal]
      rfl
    · rfl

/-- **Reading on.**  From any offset, reads that each start where the last one ended reach the end
of the stream and return, in order, every retained byte from the offset on. -/
theorem RingBuf.Holds.readOn_end (h : r.Holds S) (hS : S.length < 2 ^ 64) (offset : UInt64) {n : ℕ}
    (hn : S.length / maxOutputBytes < n) :
    r.readOn n offset = (S.drop (max offset.toNat r.start.toNat), r.total) := by
  have ht := h.toNat_total hS
  have hstart := h.start_le
  have hmax : maxOutputBytes = 65536 := rfl
  have henough : S.length < n * maxOutputBytes := (Nat.div_lt_iff_lt_mul (by omega)).1 hn
  obtain ⟨m, rfl⟩ : ∃ m, n = m + 1 :=
    Nat.exists_eq_succ_of_ne_zero (Nat.ne_zero_of_lt hn)
  -- a cursor in the window that reads the same
  obtain ⟨cursor, hread, hlo, hhi, hdrop⟩ : ∃ cursor : UInt64,
      r.readFrom offset = r.readFrom cursor ∧ r.start.toNat ≤ cursor.toNat ∧
      cursor.toNat ≤ S.length ∧
      S.drop (max offset.toNat r.start.toNat) = S.drop cursor.toNat := by
    rcases Nat.lt_or_ge offset.toNat r.start.toNat with hlt | hge
    · refine ⟨r.start, h.readFrom_of_le_start hS (by omega), Nat.le_refl _, hstart, ?_⟩
      rw [Nat.max_eq_right (by omega)]
    · rcases Nat.le_total offset.toNat S.length with hle | hbeyond
      · refine ⟨offset, rfl, hge, hle, ?_⟩
        rw [Nat.max_eq_left hge]
      · refine ⟨r.total, ?_, by omega, by omega, ?_⟩
        · rw [h.readFrom_of_le hS hbeyond, h.readFrom_of_le hS (by omega)]
        · rw [List.drop_eq_nil_of_le (by omega), List.drop_eq_nil_of_le (by omega)]
  obtain ⟨hbytes, hend⟩ := h.readOn_eq hS (m + 1) hlo hhi
  rw [RingBuf.readOn_congr hread, hdrop]
  apply Prod.ext
  · rw [hbytes, List.take_of_length_le]
    rw [List.length_drop]
    omega
  · show (r.readOn (m + 1) cursor).2 = r.total
    rw [← UInt64.toNat_inj, hend, ht]
    omega

end Reads

/-- **The ring is the sliding window of the stream.**  After appends of any sizes whose
concatenation `S` is shorter than `2 ^ 64`: the total is the length of `S`; the buffer holds its
last `min cap |S|` bytes, and `start` is the position of the first of them; a read at or beyond
the end finds nothing, and a read before it returns at most `maxOutputBytes` bytes of `S` from the
offset, or from `start`; and reads that follow one another reach the end, returning every retained
byte from the offset on, in order and once. -/
theorem ring_is_window (cap : ℕ) (chunks : List (List UInt8))
    (hS : chunks.flatten.length < 2 ^ 64) :
    let S := chunks.flatten
    let r := RingBuf.appends cap chunks
    r.total.toNat = S.length ∧
      r.data = S.drop (S.length - min cap S.length) ∧
      r.start.toNat = S.length - min cap S.length ∧
      (∀ offset, S.length ≤ offset.toNat → r.readFrom offset = (r.total, [])) ∧
      (∀ offset, offset.toNat < S.length → ∃ p : UInt64,
        p.toNat = max offset.toNat r.start.toNat ∧
        r.readFrom offset =
          (p, (S.take (min (p.toNat + maxOutputBytes) S.length)).drop p.toNat)) ∧
      ∀ offset n, S.length / maxOutputBytes < n →
        r.readOn n offset = (S.drop (max offset.toNat r.start.toNat), r.total) := by
  intro S r
  have h : r.Holds S := RingBuf.holds_appends cap hS
  have hcap : r.cap = cap := RingBuf.appends_cap cap chunks
  have hwin : S.length - min cap S.length = S.length - r.cap := by omega
  refine ⟨h.toNat_total hS, ?_, ?_, ?_, ?_, ?_⟩
  · rw [hwin]
    exact h.data
  · rw [hwin]
    exact h.start
  · intro offset ho
    exact h.readFrom_of_le hS ho
  · intro offset ho
    obtain ⟨hoff, hdata⟩ := h.readFrom_of_lt hS ho
    refine ⟨(r.readFrom offset).1, hoff, Prod.ext rfl ?_⟩
    show (r.readFrom offset).2 = _
    rw [hdata, ← hoff, List.drop_take]
    rcases Nat.le_total ((r.readFrom offset).1.toNat + maxOutputBytes) S.length with hle | hle
    · rw [Nat.min_eq_left hle, Nat.add_sub_cancel_left]
    · rw [Nat.min_eq_right hle, ← List.length_drop, List.take_length, List.take_of_length_le]
      rw [List.length_drop]
      omega
  · intro offset n hn
    exact h.readOn_end hS offset hn

/-- Three appends through a window of four bytes, and one of no bytes. -/
theorem ring_is_window_small :
    (RingBuf.appends 4 [[1, 2], [], [3, 4, 5]]).data = [2, 3, 4, 5] ∧
      (RingBuf.appends 4 [[1, 2], [], [3, 4, 5]]).readOn 1 0 = ([2, 3, 4, 5], 5) :=
  ⟨(ring_is_window 4 [[1, 2], [], [3, 4, 5]] (by decide)).2.1,
    (ring_is_window 4 [[1, 2], [], [3, 4, 5]] (by decide)).2.2.2.2.2 0 1 (by decide)⟩

end Thther
