import GoIpc.MemoryRegion

/-!
# Reading and writing a region

`NewMemoryRegionReader(region)` wraps `region.Data()` in a `*bytes.Reader`, so the reader's
`ReadAt` is `bytes.Reader.ReadAt` of the Go library on the mapped bytes (`readAt`), and a
`MemoryRegionWriter` writes the same bytes with `WriteAt`. The reader shares the mapping: it
reads the bytes as the writes left them, and its `len(r.s)` stays the region's length, which
`WriteAt` keeps.

* `readAt_congr`: `ReadAt` depends only on the region's length and the bytes it reads.
* `readAt_writeAt`: after `WriteAt(p, off)` returned `n`, a `ReadAt` of `n` bytes at `off`
  returns `p[:n]`, and a `ReadAt` of bytes the write did not cover returns what it returned
  before the write.
* `writes_lastWriter`: after any sequence of writes at non-negative offsets, none of which
  panics, each byte of the region is the one the last write covering it put there, or the
  original byte.
-/

namespace GoIpc

/-! ## `ReadAt` -/

/-- `(*MemoryRegionReader).ReadAt(b, off)`: `bytes.Reader.ReadAt` on the mapped bytes `data`,
promoted through the reader's embedded `*bytes.Reader`; the count and the error, with `b` after
the call. `copy(b, r.s[off:])` cannot panic, as `0 ≤ off < len(r.s)` there. -/
def readAt (data b : Bytes) (off : BitVec 64) : (BitVec 64 × Option Error) × Bytes :=
  if off.slt 0 then ((0, some (.new "bytes.Reader.ReadAt: negative offset")), b)
  else if data.len.sle off then ((0, some .eof), b)
  else
    let src := data.toList.drop off.toNat
    let n : BitVec 64 := BitVec.ofNat 64 (min b.toList.length src.length)
    ((n, if n.slt b.len then some .eof else none),
      ⟨Bytes.copy b.toList src, by rw [Bytes.length_copy]; exact b.length_lt⟩)

theorem take_drop_congr {l l' : List UInt8} {a k : Nat}
    (h : ∀ i < k, l'[a + i]? = l[a + i]?) : (l'.drop a).take k = (l.drop a).take k := by
  refine List.ext_getElem? fun i => ?_
  simp only [List.getElem?_take, List.getElem?_drop]
  split_ifs with hi
  · exact h i hi
  · rfl

/-- `ReadAt` depends only on the region's length and on the `len(b)` bytes from `off`. -/
theorem readAt_congr {data data' b : Bytes} {off : BitVec 64}
    (hl : data'.toList.length = data.toList.length)
    (h : ∀ i < b.toList.length, data'.toList[off.toNat + i]? = data.toList[off.toNat + i]?) :
    readAt data' b off = readAt data b off := by
  have hlen : data'.len = data.len := by rw [Bytes.len, Bytes.len, hl]
  have hdl : (data'.toList.drop off.toNat).length = (data.toList.drop off.toNat).length := by
    rw [List.length_drop, List.length_drop, hl]
  have hc : Bytes.copy b.toList (data'.toList.drop off.toNat) =
      Bytes.copy b.toList (data.toList.drop off.toNat) := by
    rw [Bytes.copy, Bytes.copy, take_drop_congr h, hdl]
  simp only [readAt, hlen, hc, hdl]

/-- At `0 ≤ off < len(data)`, `ReadAt` copies `data[off:]` into `b` and returns the number of
bytes copied, with `io.EOF` when that is fewer than `len(b)`. -/
theorem readAt_of_lt (data b : Bytes) {off : BitVec 64} (h0 : 0 ≤ off.toInt)
    (h : off.toInt < data.toList.length) :
    (readAt data b off).2.toList = Bytes.copy b.toList (data.toList.drop off.toNat) ∧
      (readAt data b off).1.1.toNat = min b.toList.length (data.toList.length - off.toNat) ∧
      ((readAt data b off).1.2 = none ↔ b.toList.length ≤ data.toList.length - off.toNat) := by
  have ho := toInt_eq_toNat_of_nonneg h0
  have hb := b.length_lt
  have hd := data.length_lt
  have hn : (BitVec.ofNat 64 (min b.toList.length (data.toList.length - off.toNat))).toInt =
      min b.toList.length (data.toList.length - off.toNat) := by
    rw [BitVec.toInt_ofNat, Int.bmod_def]
    split_ifs <;> omega
  have hs0 : ¬off.slt 0 = true := by rw [BitVec.slt, toInt_zero, decide_eq_true_iff]; omega
  have hs1 : ¬data.len.sle off = true := by
    rw [BitVec.sle, Bytes.toInt_len, decide_eq_true_iff]
    omega
  rw [readAt, if_neg hs0, if_neg hs1]
  dsimp only
  refine ⟨rfl, by rw [BitVec.toNat_ofNat, List.length_drop]; omega, ?_⟩
  rw [List.length_drop]
  rw [BitVec.slt, hn, Bytes.toInt_len]
  split_ifs with hc <;> simp only [decide_eq_true_eq] at hc <;> simp <;> omega

theorem readAt_of_ge (data b : Bytes) {off : BitVec 64} (h0 : 0 ≤ off.toInt)
    (h : (data.toList.length : Int) ≤ off.toInt) : readAt data b off = ((0, some .eof), b) := by
  have hs0 : ¬off.slt 0 = true := by rw [BitVec.slt, toInt_zero, decide_eq_true_iff]; omega
  have hs1 : data.len.sle off = true := by
    rw [BitVec.sle, Bytes.toInt_len, decide_eq_true_iff]
    exact h
  rw [readAt, if_neg hs0, if_pos hs1]

/-! ## One write, then reads -/

/-- After `WriteAt(p, off)` at `0 ≤ off ≤ len(data)` returned `n`, a reader's `ReadAt` into an
`n`-byte buffer at `off` returns `n` and the bytes `p[:n]`, with `io.EOF` exactly when
`off = len(data)`; and a `ReadAt` whose bytes lie outside `[off, off + n)` returns what it
returned before the write. -/
theorem readAt_writeAt (data p : Bytes) (off : BitVec 64) (h0 : 0 ≤ off.toInt)
    (hL : off.toInt ≤ data.toList.length) :
    ∃ n err data', writeAt data p off = some ((n, err), data') ∧
      (∀ b : Bytes, b.toList.length = n.toNat →
        (readAt data' b off).2.toList = p.toList.take n.toNat ∧ (readAt data' b off).1.1 = n ∧
        ((readAt data' b off).1.2 = none ↔ off.toInt < data.toList.length)) ∧
      ∀ (b : Bytes) (roff : BitVec 64), roff.toNat + b.toList.length ≤ off.toNat ∨
        off.toNat + n.toNat ≤ roff.toNat → readAt data' b roff = readAt data b roff := by
  obtain ⟨n, data', hw, hn, hd⟩ := writeAt_inRange data p off h0 hL
  have ho := toInt_eq_toNat_of_nonneg h0
  have hn0 : 0 ≤ n.toInt := by omega
  have hn' := toInt_eq_toNat_of_nonneg hn0
  have hs := List.length_take_of_le (show n.toNat ≤ p.toList.length by omega)
  obtain ⟨hlen, hin, hout⟩ := Bytes.getElem?_write (s := p.toList.take n.toNat)
    (show off.toNat + _ ≤ data.toList.length by rw [hs]; omega)
  rw [← hd] at hlen hin hout
  rw [hs] at hin hout
  refine ⟨n, _, data', hw, fun b hb => ?_, fun b roff hr => readAt_congr hlen fun i hi => ?_⟩
  · by_cases hlt : off.toInt < data.toList.length
    · obtain ⟨hr, hc, he⟩ := readAt_of_lt data' b h0 (by omega)
      have htake : (data'.toList.drop off.toNat).take n.toNat = p.toList.take n.toNat :=
        List.ext_getElem? fun i => by
          rw [List.getElem?_take, List.getElem?_drop]
          split_ifs with hi
          · rw [hin i hi, List.getElem?_take, if_pos hi]
          · rw [List.getElem?_take, if_neg hi]
      refine ⟨?_, BitVec.eq_of_toNat_eq (by omega), he.trans (by simp only [hlt, iff_true]; omega)⟩
      rw [hr, Bytes.copy, hb, htake, List.drop_eq_nil_of_le (by rw [hb, List.length_drop]; omega),
        List.append_nil]
    · have hz : n = 0 := BitVec.eq_of_toInt_eq (by rw [toInt_zero]; omega)
      rw [readAt_of_ge data' b h0 (by omega), hz]
      exact ⟨List.eq_nil_of_length_eq_zero (by rw [hb, hz]; rfl), rfl, by simp [hlt]⟩
  · exact hout _ (by omega)

theorem readAt_writeAt_middle :
    0 ≤ (1 : BitVec 64).toInt ∧
    (1 : BitVec 64).toInt ≤ ((⟨[0, 0, 0, 0], by decide⟩ : Bytes).toList.length : Int) ∧
    ∃ n err data', writeAt ⟨[0, 0, 0, 0], by decide⟩ ⟨[7, 8], by decide⟩ 1 =
        some ((n, err), data') ∧
      (∀ b : Bytes, b.toList.length = n.toNat →
        (readAt data' b 1).2.toList = ([7, 8] : List UInt8).take n.toNat ∧
        (readAt data' b 1).1.1 = n ∧
        ((readAt data' b 1).1.2 = none ↔
          (1 : BitVec 64).toInt < ([0, 0, 0, 0] : List UInt8).length)) ∧
      ∀ (b : Bytes) (roff : BitVec 64), roff.toNat + b.toList.length ≤ (1 : BitVec 64).toNat ∨
        (1 : BitVec 64).toNat + n.toNat ≤ roff.toNat →
        readAt data' b roff = readAt ⟨[0, 0, 0, 0], by decide⟩ b roff :=
  ⟨by decide, by decide,
    readAt_writeAt ⟨[0, 0, 0, 0], by decide⟩ ⟨[7, 8], by decide⟩ 1 (by decide) (by decide)⟩

/-! ## Sequences of writes -/

/-- `WriteAt` calls on one region, in order: the region after them, `none` when one panics. -/
def writes (data : Bytes) : List (Bytes × BitVec 64) → Option Bytes
  | [] => some data
  | (p, off) :: ws => (writeAt data p off).bind fun r => writes r.2 ws

/-- The write of `w.1` at `w.2` covers byte `j` of a region of `L` bytes. -/
def covers (L j : Nat) (w : Bytes × BitVec 64) : Bool :=
  decide (w.2.toNat ≤ j ∧ j < w.2.toNat + w.1.toList.length ∧ j < L)

/-- Byte `j` of `data` as the last of the writes `ws` that covers it left it, or as it was. -/
def lastWriter (data : List UInt8) (ws : List (Bytes × BitVec 64)) (j : Nat) : Option UInt8 :=
  match ws.reverse.find? (covers data.length j) with
  | some w => w.1.toList[j - w.2.toNat]?
  | none => data[j]?

/-- A write at a non-negative offset does not panic, keeps the region's length, and leaves at
each byte it covers the byte of `p`, and every other byte as it was. -/
theorem writeAt_bytes (data p : Bytes) (off : BitVec 64) (h0 : 0 ≤ off.toInt) :
    ∃ r data', writeAt data p off = some (r, data') ∧
      data'.toList.length = data.toList.length ∧
      ∀ j, data'.toList[j]? = if covers data.toList.length j (p, off) then
        p.toList[j - off.toNat]? else data.toList[j]? := by
  have ho := toInt_eq_toNat_of_nonneg h0
  by_cases hL : off.toInt ≤ data.toList.length
  · obtain ⟨n, data', hw, hn, hd⟩ := writeAt_inRange data p off h0 hL
    have hn' := toInt_eq_toNat_of_nonneg (show 0 ≤ n.toInt by omega)
    have hs := List.length_take_of_le (show n.toNat ≤ p.toList.length by omega)
    obtain ⟨hlen, hin, hout⟩ := Bytes.getElem?_write (s := p.toList.take n.toNat)
      (show off.toNat + _ ≤ data.toList.length by rw [hs]; omega)
    rw [← hd] at hlen hin hout
    rw [hs] at hin hout
    refine ⟨_, data', hw, hlen, fun j => ?_⟩
    simp only [covers, decide_eq_true_eq]
    split_ifs with hc
    · obtain ⟨i, rfl⟩ : ∃ i, j = off.toNat + i := ⟨j - off.toNat, by omega⟩
      rw [hin i (by omega), List.getElem?_take, if_pos (by omega), Nat.add_sub_cancel_left]
    · exact hout j (by omega)
  · have hn : (data.len - off).toInt = data.toList.length - off.toInt := by
      rw [Bytes.toInt_len_sub, if_pos (by omega)]
    refine ⟨_, data, writeAt_of_nonpos data p off (by omega), rfl, fun j => ?_⟩
    rw [covers, if_neg (by simp only [decide_eq_true_eq]; omega)]

/-- Runs of `WriteAt` at non-negative offsets never panic, keep the region's length, and leave
each byte as the last write covering it put it, or as it was when no write covers it. -/
theorem writes_lastWriter (data : Bytes) (ws : List (Bytes × BitVec 64))
    (hws : ∀ w ∈ ws, 0 ≤ w.2.toInt) :
    ∃ data', writes data ws = some data' ∧ data'.toList.length = data.toList.length ∧
      ∀ j, data'.toList[j]? = lastWriter data.toList ws j := by
  induction ws generalizing data with
  | nil => exact ⟨data, rfl, rfl, fun j => rfl⟩
  | cons w ws ih =>
    obtain ⟨p, off⟩ := w
    obtain ⟨r, d1, hw, hl1, hj1⟩ := writeAt_bytes data p off (hws _ (List.mem_cons_self _ _))
    obtain ⟨d', hd', hl', hj'⟩ := ih d1 fun w hw' => hws w (List.mem_cons_of_mem _ hw')
    refine ⟨d', by rw [writes, hw]; exact hd', hl'.trans hl1, fun j => ?_⟩
    rw [hj', lastWriter, lastWriter, List.reverse_cons, List.find?_append, hl1]
    cases ws.reverse.find? (covers data.toList.length j) with
    | some w' => rfl
    | none =>
      rw [hj1 j, Option.none_or, List.find?_singleton]
      split_ifs <;> rfl

theorem writes_lastWriter_overlap :
    (∀ w ∈ [((⟨[1, 2], by decide⟩ : Bytes), (0 : BitVec 64)), (⟨[9], by decide⟩, 1)],
      0 ≤ w.2.toInt) ∧
    ∃ data', writes ⟨[0, 0, 0], by decide⟩
        [(⟨[1, 2], by decide⟩, 0), (⟨[9], by decide⟩, 1)] = some data' ∧
      data'.toList.length = ([0, 0, 0] : List UInt8).length ∧
      ∀ j, data'.toList[j]? = lastWriter [0, 0, 0]
        [(⟨[1, 2], by decide⟩, 0), (⟨[9], by decide⟩, 1)] j :=
  ⟨by decide, writes_lastWriter ⟨[0, 0, 0], by decide⟩ _ (by decide)⟩

end GoIpc
