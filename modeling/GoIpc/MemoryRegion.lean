import GoIpc.Mode
import Mathlib.Algebra.Group.Int
import Mathlib.Algebra.Group.Nat.Basic
import Mathlib.Tactic.SplitIfs

/-!
# Memory regions

`memory_region.go`: the writer view `(*MemoryRegionWriter).WriteAt` over a region's mapped
bytes, the offset fixup `calcMmapOffsetFixup`, and the size check `checkMmapSize` made before an
object is mapped.

Go's `int` and `int64` are `BitVec 64`, compared as signed numbers (`BitVec.slt`). A `[]byte`
is a list of bytes whose length is a non-negative `int` (`Bytes`). Slicing checks its bounds
at run time and panics outside them, so a function that slices returns `none` when it panics.

* `writeAt_inRange`, `writeAt_contract`: for `0 ≤ off ≤ len(data)` the write meets the
  `io.WriterAt` contract.
* `writeAt_pastEnd`, `writeAt_negative`: past the end it returns a negative count with
  `io.EOF`; at a negative offset it panics in `data[off:]`, or returns a negative count when
  `len(data) - off` overflows.
* `calcMmapOffsetFixup_eq`, `calcMmapOffsetFixup_neg`: for a non-negative offset the fixup is
  the offset modulo the page size; for a negative one it is Go's truncating `%`, so the mapping
  offset is rounded toward zero.
* `checkMmapSize_result`: a non-zero size is kept, negative sizes included; a zero size
  becomes the size `Stat` reports, `0` for an object without `Stat`, or an error.
-/

namespace GoIpc

/-! ## Go integers -/

@[simp] theorem toInt_zero : (0 : BitVec 64).toInt = 0 := by decide

theorem toInt_bounds (x : BitVec 64) : -2 ^ 63 ≤ x.toInt ∧ x.toInt < 2 ^ 63 := by
  rw [BitVec.toInt_eq_toNat_bmod]
  exact ⟨Int.le_bmod (by decide), Int.bmod_lt (by decide)⟩

theorem toInt_eq_toNat_of_nonneg {x : BitVec 64} (h : 0 ≤ x.toInt) : x.toInt = x.toNat := by
  have := x.isLt
  rw [BitVec.toInt_eq_toNat_cond] at h ⊢
  split_ifs at h ⊢ <;> omega

theorem msb_of_nonneg {x : BitVec 64} (h : 0 ≤ x.toInt) : x.msb = false := by
  have := x.isLt
  rw [BitVec.toInt_eq_msb_cond] at h
  cases hm : x.msb
  · rfl
  · rw [hm, if_pos rfl] at h
    omega

/-! ## Byte slices -/

/-- A Go `[]byte`: its elements, as many as a non-negative `int` can count. The capacity is not
modelled: the code slices only within the length. -/
structure Bytes where
  toList : List UInt8
  length_lt : toList.length < 2 ^ 63
  deriving DecidableEq

namespace Bytes

/-- `len(b)`. -/
def len (b : Bytes) : BitVec 64 := BitVec.ofNat 64 b.toList.length

/-- `b[:n]`: panics unless `0 ≤ n ≤ len(b)`. -/
def sliceTo (b : Bytes) (n : BitVec 64) : Option (List UInt8) :=
  if n.slt 0 || b.len.slt n then none else some (b.toList.take n.toNat)

/-- `copy(dst, src)`: `dst` with its first `min(len(dst), len(src))` elements taken from
`src`. -/
def copy (dst src : List UInt8) : List UInt8 := src.take dst.length ++ dst.drop src.length

theorem length_copy (dst src : List UInt8) : (copy dst src).length = dst.length := by
  simp only [copy, List.length_append, List.length_take, List.length_drop]
  omega

theorem copy_of_le {dst src : List UInt8} (h : src.length ≤ dst.length) :
    copy dst src = src ++ dst.drop src.length := by
  rw [copy, List.take_of_length_le h]

/-- Writing `s` into `d` at `o`, where it fits: the length is kept, `s` is found from `o` on,
and every other element of `d` is kept. -/
theorem getElem?_write {d s : List UInt8} {o : Nat} (h : o + s.length ≤ d.length) :
    (d.take o ++ copy (d.drop o) s).length = d.length ∧
      (∀ i < s.length, (d.take o ++ copy (d.drop o) s)[o + i]? = s[i]?) ∧
      ∀ j, j < o ∨ o + s.length ≤ j → (d.take o ++ copy (d.drop o) s)[j]? = d[j]? := by
  have hlo := List.length_take_of_le (Nat.le_of_add_right_le h)
  rw [copy_of_le (by rw [List.length_drop]; omega), List.drop_drop]
  refine ⟨by simp only [List.length_append, hlo, List.length_drop]; omega, fun i hi => ?_,
    fun j hj => ?_⟩
  · rw [List.getElem?_append_right (by omega), hlo, Nat.add_sub_cancel_left,
      List.getElem?_append_left hi]
  · rcases hj with hj | hj
    · rw [List.getElem?_append_left (by omega), List.getElem?_take, if_pos hj]
    · rw [List.getElem?_append_right (by omega), List.getElem?_append_right (by omega),
        List.getElem?_drop, hlo]
      congr 1
      omega

/-- `copy(b[off:], src)`, which writes through the slice into `b`; `b[off:]` panics unless
`0 ≤ off ≤ len(b)`. -/
def copyAt (b : Bytes) (off : BitVec 64) (src : List UInt8) : Option Bytes :=
  if off.slt 0 || b.len.slt off then none
  else some ⟨b.toList.take off.toNat ++ copy (b.toList.drop off.toNat) src, by
    rw [List.length_append, length_copy, List.length_take, List.length_drop]
    have := b.length_lt
    omega⟩

theorem toInt_len (b : Bytes) : b.len.toInt = b.toList.length := by
  have := b.length_lt
  rw [len, BitVec.toInt_ofNat, Int.bmod_def]
  split <;> omega

/-- `len(b) - off` as an `int`: it overflows only past `2^63 - 1`. -/
theorem toInt_len_sub (b : Bytes) (off : BitVec 64) : (b.len - off).toInt =
    if (b.toList.length : Int) - off.toInt < 2 ^ 63 then b.toList.length - off.toInt
    else b.toList.length - off.toInt - 2 ^ 64 := by
  have := toInt_bounds off
  have := b.length_lt
  rw [BitVec.toInt_sub, toInt_len, Int.bmod_def]
  split_ifs <;> omega

theorem sliceTo_of_le {b : Bytes} {n : BitVec 64} (h0 : 0 ≤ n.toInt)
    (h : n.toInt ≤ b.toList.length) : b.sliceTo n = some (b.toList.take n.toNat) := by
  rw [sliceTo, if_neg]
  simp only [BitVec.slt, toInt_len, toInt_zero, Bool.or_eq_true, decide_eq_true_eq]
  omega

theorem copyAt_of_neg {b : Bytes} {off : BitVec 64} (src : List UInt8) (h : off.toInt < 0) :
    b.copyAt off src = none := by
  rw [copyAt, if_pos]
  simp [BitVec.slt, h]

theorem copyAt_of_le {b : Bytes} {off : BitVec 64} (src : List UInt8) (h0 : 0 ≤ off.toInt)
    (h : off.toInt ≤ b.toList.length) : ∃ b', b.copyAt off src = some b' ∧
      b'.toList = b.toList.take off.toNat ++ copy (b.toList.drop off.toNat) src := by
  rw [copyAt, if_neg]
  · exact ⟨_, rfl, rfl⟩
  simp only [BitVec.slt, toInt_len, toInt_zero, Bool.or_eq_true, decide_eq_true_eq]
  omega

end Bytes

/-! ## `WriteAt` -/

/-- `(*MemoryRegionWriter).WriteAt(p, off)` on a region whose mapped bytes are `data`: the
count `n` and the error it returns, with the mapped bytes after the call; `none` when it panics.
`int(off)` is the identity, `int` being 64 bits wide. `p[:n]` is evaluated before `data[off:]`
here; only the latter can panic, as `n ≤ len(p)` there. -/
def writeAt (data p : Bytes) (off : BitVec 64) : Option ((BitVec 64 × Option Error) × Bytes) := do
  let n := data.len - off
  let (n, data) ← if (0 : BitVec 64).slt n then do
      let n := if p.len.slt n then p.len else n
      let src ← p.sliceTo n
      let data ← data.copyAt off src
      pure (n, data)
    else pure (n, data)
  pure ((n, if n.slt p.len then some .eof else none), data)

/-- When `len(data) - off` is positive, `WriteAt` copies `p[:n]` to `data[off:]`, with `n`
the smaller of the two lengths. -/
theorem writeAt_of_pos (data p : Bytes) (off : BitVec 64) (h : 0 < (data.len - off).toInt) :
    ∃ n : BitVec 64, n.toInt = min (p.toList.length : Int) (data.len - off).toInt ∧
      writeAt data p off = (data.copyAt off (p.toList.take n.toNat)).map
        fun d => ((n, if n.toInt < p.toList.length then some .eof else none), d) := by
  have hP := p.toInt_len
  have hs : (0 : BitVec 64).slt (data.len - off) = true := by
    rw [BitVec.slt, toInt_zero, decide_eq_true_eq]
    exact h
  have hn : (if p.len.slt (data.len - off) = true then p.len else data.len - off).toInt =
      min (p.toList.length : Int) (data.len - off).toInt := by
    split_ifs with h' <;> simp only [BitVec.slt, decide_eq_true_eq] at h' <;> omega
  refine ⟨_, hn, ?_⟩
  simp only [writeAt, hs, if_true]
  generalize (if p.len.slt (data.len - off) = true then p.len else data.len - off) = n at hn ⊢
  rw [Bytes.sliceTo_of_le (by omega) (by omega)]
  simp only [BitVec.slt, decide_eq_true_eq, hP]
  rcases hc : data.copyAt off (p.toList.take n.toNat) with _ | b <;> simp [hc]

/-- When `len(data) - off` is not positive, `WriteAt` returns it as the count and writes
nothing. -/
theorem writeAt_of_nonpos (data p : Bytes) (off : BitVec 64) (h : (data.len - off).toInt ≤ 0) :
    writeAt data p off = some ((data.len - off,
      if (data.len - off).toInt < p.toList.length then some .eof else none), data) := by
  have hs : (0 : BitVec 64).slt (data.len - off) = false := by
    rw [BitVec.slt, toInt_zero, decide_eq_false_iff_not]
    omega
  simp only [writeAt, hs, Bool.false_eq_true, if_false]
  simp only [BitVec.slt, decide_eq_true_eq, p.toInt_len]
  rfl

/-- For `0 ≤ off ≤ len(data)`, `WriteAt` copies `p[:n]` to `data[off:]`, with `n` the smaller
of `len(p)` and `len(data) - off`, and returns `io.EOF` when `n < len(p)`. -/
theorem writeAt_inRange (data p : Bytes) (off : BitVec 64) (h0 : 0 ≤ off.toInt)
    (hL : off.toInt ≤ data.toList.length) :
    ∃ n data', writeAt data p off =
        some ((n, if n.toInt < (p.toList.length : Int) then some .eof else none), data') ∧
      n.toInt = min (p.toList.length : Int) (data.toList.length - off.toInt) ∧
      data'.toList = data.toList.take off.toNat ++
        Bytes.copy (data.toList.drop off.toNat) (p.toList.take n.toNat) := by
  have hn : (data.len - off).toInt = data.toList.length - off.toInt := by
    rw [Bytes.toInt_len_sub, if_pos (by have := data.length_lt; omega)]
  by_cases hpos : 0 < (data.len - off).toInt
  · obtain ⟨n, hnv, hw⟩ := writeAt_of_pos data p off hpos
    obtain ⟨b', hb', hb'l⟩ := data.copyAt_of_le (p.toList.take n.toNat) h0 hL
    exact ⟨n, b', by rw [hw, hb']; rfl, hn ▸ hnv, hb'l⟩
  · have hz : data.len - off = 0 := BitVec.eq_of_toInt_eq (by rw [toInt_zero]; omega)
    refine ⟨_, data, writeAt_of_nonpos data p off (by omega), by rw [hz, toInt_zero]; omega, ?_⟩
    rw [hz]
    simp [Bytes.copy]

/-- Past the end of the region `WriteAt` writes nothing and returns the negative count
`len(data) - off` with `io.EOF`. -/
theorem writeAt_pastEnd (data p : Bytes) (off : BitVec 64)
    (h : (data.toList.length : Int) < off.toInt) :
    writeAt data p off = some ((data.len - off, some .eof), data) ∧
      (data.len - off).toInt = data.toList.length - off.toInt := by
  have hn : (data.len - off).toInt = data.toList.length - off.toInt := by
    rw [Bytes.toInt_len_sub, if_pos (by omega)]
  refine ⟨?_, hn⟩
  rw [writeAt_of_nonpos data p off (by omega), if_pos (by omega)]

theorem writeAt_pastEnd_oneByte :
    ((⟨[0], by decide⟩ : Bytes).toList.length : Int) < (5 : BitVec 64).toInt ∧
      writeAt ⟨[0], by decide⟩ ⟨[7], by decide⟩ 5 =
        some ((Bytes.len ⟨[0], by decide⟩ - 5, some .eof), ⟨[0], by decide⟩) ∧
      (Bytes.len ⟨[0], by decide⟩ - 5).toInt =
        ((⟨[0], by decide⟩ : Bytes).toList.length : Int) - (5 : BitVec 64).toInt :=
  ⟨by decide, writeAt_pastEnd ⟨[0], by decide⟩ ⟨[7], by decide⟩ 5 (by decide)⟩

/-- At a negative offset `WriteAt` panics in `data[off:]`, unless `len(data) - off` overflows
`int`, when it writes nothing and returns a negative count with `io.EOF`. -/
theorem writeAt_negative (data p : Bytes) (off : BitVec 64) (h : off.toInt < 0) :
    ((data.toList.length : Int) - off.toInt < 2 ^ 63 → writeAt data p off = none) ∧
    (2 ^ 63 ≤ (data.toList.length : Int) - off.toInt →
      writeAt data p off = some ((data.len - off, some .eof), data) ∧
      (data.len - off).toInt = data.toList.length - off.toInt - 2 ^ 64) := by
  refine ⟨fun hw => ?_, fun hw => ?_⟩
  · have hn : (data.len - off).toInt = data.toList.length - off.toInt := by
      rw [Bytes.toInt_len_sub, if_pos hw]
    obtain ⟨n, -, hwr⟩ := writeAt_of_pos data p off (by omega)
    rw [hwr, Bytes.copyAt_of_neg _ h]
    rfl
  · have hn : (data.len - off).toInt = data.toList.length - off.toInt - 2 ^ 64 := by
      rw [Bytes.toInt_len_sub, if_neg (by omega)]
    have := data.length_lt
    have := toInt_bounds off
    refine ⟨?_, hn⟩
    rw [writeAt_of_nonpos data p off (by omega), if_pos (by omega)]

theorem writeAt_negative_one :
    (-1 : BitVec 64).toInt < 0 ∧
      ((((⟨[0], by decide⟩ : Bytes).toList.length : Int) - (-1 : BitVec 64).toInt < 2 ^ 63 →
        writeAt ⟨[0], by decide⟩ ⟨[1], by decide⟩ (-1) = none) ∧
      (2 ^ 63 ≤ ((⟨[0], by decide⟩ : Bytes).toList.length : Int) - (-1 : BitVec 64).toInt →
        writeAt ⟨[0], by decide⟩ ⟨[1], by decide⟩ (-1) =
          some ((Bytes.len ⟨[0], by decide⟩ - (-1), some .eof), ⟨[0], by decide⟩) ∧
        (Bytes.len ⟨[0], by decide⟩ - (-1)).toInt =
          ((⟨[0], by decide⟩ : Bytes).toList.length : Int) - (-1 : BitVec 64).toInt - 2 ^ 64)) :=
  ⟨by decide, writeAt_negative ⟨[0], by decide⟩ ⟨[1], by decide⟩ (-1) (by decide)⟩

/-- For `0 ≤ off ≤ len(data)`, `WriteAt` meets the `io.WriterAt` contract: it writes
`n = min(len(p), len(data) - off)` bytes of `p` at `off`, leaves every other byte of the region
as it was, and returns an error exactly when `n < len(p)`. -/
theorem writeAt_contract (data p : Bytes) (off : BitVec 64) (h0 : 0 ≤ off.toInt)
    (hL : off.toInt ≤ data.toList.length) :
    ∃ n err data', writeAt data p off = some ((n, err), data') ∧
      n.toInt = min (p.toList.length : Int) (data.toList.length - off.toInt) ∧
      data'.toList.length = data.toList.length ∧
      (∀ i < n.toNat, data'.toList[off.toNat + i]? = p.toList[i]?) ∧
      (∀ j, j < off.toNat ∨ off.toNat + n.toNat ≤ j → data'.toList[j]? = data.toList[j]?) ∧
      (err ≠ none ↔ n.toInt < p.toList.length) := by
  obtain ⟨n, data', hw, hn, hd⟩ := writeAt_inRange data p off h0 hL
  have ho := toInt_eq_toNat_of_nonneg h0
  have hn' := toInt_eq_toNat_of_nonneg (show 0 ≤ n.toInt by omega)
  have hs := List.length_take_of_le (show n.toNat ≤ p.toList.length by omega)
  obtain ⟨hlen, hin, hout⟩ := Bytes.getElem?_write (s := p.toList.take n.toNat)
    (show off.toNat + _ ≤ data.toList.length by rw [hs]; omega)
  rw [← hd] at hlen hin hout
  rw [hs] at hin hout
  refine ⟨n, _, data', hw, hn, hlen, fun i hi => ?_, hout, by split_ifs with h <;> simp [h]⟩
  rw [hin i hi, List.getElem?_take, if_pos hi]

theorem writeAt_contract_middle :
    0 ≤ (1 : BitVec 64).toInt ∧
    (1 : BitVec 64).toInt ≤ ((⟨[0, 0], by decide⟩ : Bytes).toList.length : Int) ∧
    ∃ n err data', writeAt ⟨[0, 0], by decide⟩ ⟨[5], by decide⟩ 1 = some ((n, err), data') ∧
      n.toInt = min (([5] : List UInt8).length : Int)
        (([0, 0] : List UInt8).length - (1 : BitVec 64).toInt) ∧
      data'.toList.length = ([0, 0] : List UInt8).length ∧
      (∀ i < n.toNat, data'.toList[(1 : BitVec 64).toNat + i]? = ([5] : List UInt8)[i]?) ∧
      (∀ j, j < (1 : BitVec 64).toNat ∨ (1 : BitVec 64).toNat + n.toNat ≤ j →
        data'.toList[j]? = ([0, 0] : List UInt8)[j]?) ∧
      (err ≠ none ↔ n.toInt < ([5] : List UInt8).length) :=
  ⟨by decide, by decide,
    writeAt_contract ⟨[0, 0], by decide⟩ ⟨[5], by decide⟩ 1 (by decide) (by decide)⟩

/-- At a negative offset the write panics in `data[off:]`; past the end it returns a negative
count. -/
theorem writeAt_out_of_range :
    writeAt ⟨[0], by decide⟩ ⟨[1], by decide⟩ (-1) = none ∧
      writeAt ⟨[], by decide⟩ ⟨[7], by decide⟩ 1 = some ((-1, some .eof), ⟨[], by decide⟩) := by
  decide

/-! ## Mapping -/

/-- `calcMmapOffsetFixup(offset)`, where `pageSize` is `mmapOffsetMultiple()`, a platform value
not in the modelled sources. Go's `/` on `int64` truncates (`BitVec.sdiv`). -/
def calcMmapOffsetFixup (pageSize offset : BitVec 64) : BitVec 64 :=
  offset - offset.sdiv pageSize * pageSize

/-- For a non-negative offset and a positive page size the fixup is the offset modulo the page
size: `offset - X` is the offset rounded down to a page boundary. -/
theorem calcMmapOffsetFixup_eq (pageSize offset : BitVec 64) (ho : 0 ≤ offset.toInt)
    (hp : 0 < pageSize.toInt) :
    (calcMmapOffsetFixup pageSize offset).toNat = offset.toNat % pageSize.toNat := by
  have hx := offset.isLt
  have hdm := Nat.div_add_mod offset.toNat pageSize.toNat
  have hle : offset.toNat / pageSize.toNat * pageSize.toNat ≤ offset.toNat :=
    Nat.div_mul_le_self _ _
  rw [calcMmapOffsetFixup, BitVec.sdiv_eq, msb_of_nonneg ho, msb_of_nonneg (Int.le_of_lt hp)]
  simp only [BitVec.udiv_eq, BitVec.toNat_sub, BitVec.toNat_mul, BitVec.toNat_udiv]
  rw [Nat.mod_eq_of_lt (by omega : offset.toNat / pageSize.toNat * pageSize.toNat < 2 ^ 64)]
  rw [Nat.mul_comm] at hdm
  rw [show 2 ^ 64 - offset.toNat / pageSize.toNat * pageSize.toNat + offset.toNat =
    (offset.toNat % pageSize.toNat) + 2 ^ 64 by omega, Nat.add_mod_right,
    Nat.mod_eq_of_lt (by omega)]

theorem calcMmapOffsetFixup_page :
    0 ≤ (10000 : BitVec 64).toInt ∧ 0 < (4096 : BitVec 64).toInt ∧
      (calcMmapOffsetFixup 4096 10000).toNat =
        (10000 : BitVec 64).toNat % (4096 : BitVec 64).toNat :=
  ⟨by decide, by decide, calcMmapOffsetFixup_eq 4096 10000 (by decide) (by decide)⟩

/-- For a negative offset and a positive page size the fixup is Go's `offset % pageSize`, which
truncates toward zero: it lies in `(-pageSize, 0]`, so `offset - X` is the offset rounded toward
zero to a multiple of the page size, at or above the offset rather than below it. -/
theorem calcMmapOffsetFixup_neg (pageSize offset : BitVec 64) (ho : offset.toInt < 0)
    (hp : 0 < pageSize.toInt) :
    (calcMmapOffsetFixup pageSize offset).toInt = offset.toInt.tmod pageSize.toInt ∧
      -pageSize.toInt < (calcMmapOffsetFixup pageSize offset).toInt ∧
      (calcMmapOffsetFixup pageSize offset).toInt ≤ 0 := by
  have hpP := toInt_eq_toNat_of_nonneg (Int.le_of_lt hp)
  have hP := toInt_bounds pageSize
  have hA := offset.isLt
  have hoA : offset.toInt = offset.toNat - 2 ^ 64 ∧ 2 ^ 63 ≤ offset.toNat := by
    rw [BitVec.toInt_eq_toNat_cond] at ho ⊢
    split_ifs at ho ⊢ <;> omega
  have hN : (-offset).toNat = 2 ^ 64 - offset.toNat := by
    rw [BitVec.toNat_neg]
    exact Nat.mod_eq_of_lt (by omega)
  have hR := Nat.mod_lt (-offset).toNat (show 0 < pageSize.toNat by omega)
  -- `offset - (-((-offset) / pageSize)) * pageSize` wraps around to `-((-offset) % pageSize)`
  have hfix : (offset - -((-offset).udiv pageSize) * pageSize).toNat =
      (2 ^ 64 - (-offset).toNat % pageSize.toNat) % 2 ^ 64 := by
    rw [BitVec.toNat_sub, BitVec.toNat_mul, BitVec.toNat_neg, BitVec.udiv_eq, BitVec.toNat_udiv]
    have hdm := Nat.div_add_mod (-offset).toNat pageSize.toNat
    generalize (-offset).toNat / pageSize.toNat = Q at hdm ⊢
    generalize (-offset).toNat % pageSize.toNat = R at hdm hR ⊢
    rcases Nat.eq_zero_or_pos Q with rfl | hQ
    · simp only [Nat.mul_zero, Nat.zero_add] at hdm
      omega
    · have hM : pageSize.toNat ≤ pageSize.toNat * Q := Nat.le_mul_of_pos_right _ hQ
      rw [Nat.mod_eq_of_lt (show 2 ^ 64 - Q < 2 ^ 64 by omega), Nat.sub_mul, Nat.mul_comm Q]
      generalize pageSize.toNat * Q = M at hdm hM ⊢
      omega
  have hfixI : (calcMmapOffsetFixup pageSize offset).toInt =
      -(((-offset).toNat % pageSize.toNat : Nat) : Int) := by
    rw [calcMmapOffsetFixup, BitVec.sdiv_eq,
      show offset.msb = true by rw [BitVec.msb_eq_decide, decide_eq_true_eq]; exact hoA.2,
      msb_of_nonneg (Int.le_of_lt hp)]
    dsimp only
    rw [BitVec.toInt_eq_toNat_cond, hfix]
    split_ifs <;> omega
  obtain ⟨m, hm⟩ := Int.eq_negSucc_of_lt_zero ho
  have htmod : offset.toInt.tmod pageSize.toInt =
      -(((-offset).toNat % pageSize.toNat : Nat) : Int) := by
    rw [hm, hpP]
    show -(((m + 1) % pageSize.toNat : Nat) : Int) = _
    rw [Int.negSucc_coe] at hm
    rw [show m + 1 = (-offset).toNat by omega]
  refine ⟨hfixI.trans htmod.symm, ?_, ?_⟩ <;> rw [hfixI] <;> omega

theorem calcMmapOffsetFixup_minus_page :
    (-10000 : BitVec 64).toInt < 0 ∧ 0 < (4096 : BitVec 64).toInt ∧
      ((calcMmapOffsetFixup 4096 (-10000)).toInt =
          (-10000 : BitVec 64).toInt.tmod (4096 : BitVec 64).toInt ∧
        -(4096 : BitVec 64).toInt < (calcMmapOffsetFixup 4096 (-10000)).toInt ∧
        (calcMmapOffsetFixup 4096 (-10000)).toInt ≤ 0) :=
  ⟨by decide, by decide, calcMmapOffsetFixup_neg 4096 (-10000) (by decide) (by decide)⟩

/-- A `Mappable` as `checkMmapSize` sees it: its `Fd()`, and, when it implements
`fileInfoGetter`, what its `Stat()` returns: the size `fi.Size()` or the error. `Name()` is not
read. -/
structure Mappable where
  fd : BitVec 64
  stat : Option (Except Error (BitVec 64))

/-- `fileSizeFromFd(f)`. -/
def fileSizeFromFd (f : Mappable) : BitVec 64 × Option Error :=
  if f.fd = ~~~0 then (0, none) else
  match f.stat with
  | some (.error err) => (0, some err)
  | some (.ok size) => (size, none)
  | none => (0, none)

/-- `checkMmapSize(f, size)`. `int(sz)` is the identity, `int` being 64 bits wide. -/
def checkMmapSize (f : Mappable) (size : BitVec 64) : BitVec 64 × Option Error :=
  if size = 0 then
    if f.fd = ~~~0 then (0, some (.new "must provide a valid file size")) else
    match fileSizeFromFd f with
    | (sz, none) => (sz, none)
    | (_, some err) => (0, some err)
  else (size, none)

/-- `checkMmapSize` returns no error exactly for a non-zero size, which it keeps, and for a
zero size when `Fd() ≠ ^uintptr(0)` and `Stat` reports a size, or the object has no `Stat`,
when it returns `0`. An error comes only with a zero size: "must provide a valid file size" when
`Fd() = ^uintptr(0)`, and otherwise the error of `Stat`. -/
theorem checkMmapSize_result (f : Mappable) (size : BitVec 64) :
    (∀ s, checkMmapSize f size = (s, none) ↔ (size ≠ 0 ∧ s = size) ∨
      (size = 0 ∧ f.fd ≠ ~~~0 ∧ (f.stat = some (.ok s) ∨ (f.stat = none ∧ s = 0)))) ∧
    (∀ s err, checkMmapSize f size = (s, some err) → size = 0 ∧ s = 0 ∧
      ((f.fd = ~~~0 ∧ err = .new "must provide a valid file size") ∨
        (f.fd ≠ ~~~0 ∧ f.stat = some (.error err)))) := by
  unfold checkMmapSize fileSizeFromFd
  by_cases hs : size = 0
  · by_cases hf : f.fd = ~~~0
    · simp [hs, hf]
    · rw [if_pos hs, if_neg hf, if_neg hf]
      rcases hst : f.stat with _ | err | sz <;> simp_all [@eq_comm _ 0#64]
  · rw [if_neg hs]
    refine ⟨fun s => ⟨fun h => .inl ⟨hs, (Prod.mk.inj h).1.symm⟩, ?_⟩,
      fun s err h => nomatch (Prod.mk.inj h).2⟩
    rintro (⟨-, rfl⟩ | ⟨h, -⟩)
    · rfl
    · exact absurd h hs

/-- A negative size is kept, and a zero size is accepted as `0` from an object without `Stat`
or with a zero-sized one. -/
theorem checkMmapSize_nonpositive :
    checkMmapSize ⟨0, none⟩ (-1) = (-1, none) ∧ checkMmapSize ⟨0, none⟩ 0 = (0, none) ∧
      checkMmapSize ⟨0, some (.ok 0)⟩ 0 = (0, none) := by
  decide

end GoIpc
