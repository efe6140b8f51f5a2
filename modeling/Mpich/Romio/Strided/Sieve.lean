import Mpich.Romio.Strided.Requests

/-!
# The window of a sieving read

The window holds what the file has in its range, up to the end of the file, and after
`reach` the request lies in it. So each request is copied out of the buffer, inside its
allocation, and what is copied is what the file has as far as the file goes.
-/

namespace Mpich.Romio.Strided

open List Function

open FileView (toInt toInt_of_fits)

/-- Memory after bytes have been written one after the other. -/
def lay
    (memory : Int → Byte) : List (Int × Byte) → Int → Byte
  | [] => memory
  | write :: rest => lay (update memory write.1 write.2) rest

theorem lay_append
    (memory : Int → Byte)
    (first second : List (Int × Byte)) :
    lay memory (first ++ second) = lay (lay memory first) second := by
  induction first generalizing memory with
  | nil => rfl
  | cons write rest ih => exact ih _

/-- A place that is not written. -/
theorem lay_of_notMem
    {memory : Int → Byte} {writes : List (Int × Byte)} {place : Int}
    (notMem : ∀ write ∈ writes, write.1 ≠ place) :
    lay memory writes place = memory place := by
  induction writes generalizing memory with
  | nil => rfl
  | cons write rest ih =>
    rw [lay, ih fun other member =>
      notMem other (mem_cons_of_mem write member)]
    exact update_of_ne (notMem write mem_cons_self).symm _ _

/-- A place that is written has its value from the writes. -/
theorem lay_of_mem
    (memory other : Int → Byte)
    {writes : List (Int × Byte)} {place : Int}
    (mem : ∃ write ∈ writes, write.1 = place) :
    lay memory writes place = lay other writes place := by
  induction writes generalizing memory other with
  | nil =>
    obtain ⟨_, member, _⟩ := mem
    cases member
  | cons write rest ih =>
    by_cases later : ∃ write ∈ rest, write.1 = place
    · exact ih _ _ later
    · have notMem : ∀ other ∈ rest, other.1 ≠ place := fun other member same =>
        later ⟨other, member, same⟩
      obtain ⟨found, member, isPlace⟩ := mem
      rcases mem_cons.mp member with rfl | isLater
      · rw [lay, lay, lay_of_notMem notMem, lay_of_notMem notMem, isPlace, update_self, update_self]
      · exact absurd isPlace (notMem found isLater)

theorem memcpy_eq_lay
    (memory : Int → Byte)
    (base length : Int)
    (source : Int → Byte) :
    memcpy memory base length source =
      lay memory ((List.range length.toNat).map fun (index : Nat) =>
        (base + index, source index)) := by
  obtain ⟨count, isCount⟩ : ∃ count, length.toNat = count := ⟨_, rfl⟩
  rw [isCount]
  induction count generalizing length with
  | zero =>
    funext place
    exact if_neg (by omega)
  | succ count ih =>
    rw [range_succ, map_append, lay_append, ← ih (length - 1) (by omega)]
    funext place
    change memcpy memory base length source place =
      update (memcpy memory base (length - 1) source) (base + count) (source count) place
    by_cases isLast : place = base + count
    · rw [isLast, update_self]
      unfold memcpy
      rw [if_pos (by omega), show base + count - base = count by omega]
    · rw [update_of_ne isLast]
      apply if_congr _ rfl rfl
      omega

/-- The bytes that the file has, at their places in memory. -/
def readsOf
    (file : File)
    (bytes : List (Int × Int)) : List (Int × Byte) :=
  (bytes.filter fun byte => byte.1 < (file.size : Int)).map fun byte =>
    (byte.2, file.contents byte.1.toNat)

theorem readsOf_append
    (file : File)
    (first second : List (Int × Int)) :
    readsOf file (first ++ second) = readsOf file first ++ readsOf file second := by
  unfold readsOf
  rw [filter_append, map_append]

theorem filter_range
    (off limit : Int)
    (count : Nat) :
    (List.range count).filter (fun (index : Nat) => off + index < limit) =
      List.range (min (count : Int) (limit - off)).toNat := by
  induction count with
  | zero =>
    have isZero : (min ((0 : Nat) : Int) (limit - off)).toNat = 0 := by omega
    rw [isZero]
    rfl
  | succ count ih =>
    rw [range_succ, filter_append, ih]
    by_cases inside : off + count < limit
    · have isBoth : (min ((count + 1 : Nat) : Int) (limit - off)).toNat = count + 1 := by
        omega
      have isCount : (min (count : Int) (limit - off)).toNat = count := by omega
      rw [isBoth, isCount, range_succ, filter_cons_of_pos (by simpa using inside)]
      rfl
    · have same : (min ((count + 1 : Nat) : Int) (limit - off)).toNat =
          (min (count : Int) (limit - off)).toNat := by omega
      rw [same, filter_cons_of_neg (by simpa using inside)]
      exact append_nil _

/-- A read of a request lays out what the file has of it. -/
theorem readContig_eq
    {file : File} {request : Request}
    (offNonneg : 0 ≤ request.reqOff)
    (lenNonneg : 0 ≤ request.reqLen)
    (memory : Int → Byte) :
    readContig file request.reqOff request.reqLen request.userbufOff memory =
      some (lay memory (readsOf file request.bytes)) := by
  unfold readContig
  rw [if_pos ⟨offNonneg, lenNonneg⟩, memcpy_eq_lay]
  unfold readsOf Request.bytes
  rw [filter_map, map_map]
  have isFilter := filter_range request.reqOff file.size request.reqLen.toNat
  rw [Int.toNat_of_nonneg lenNonneg] at isFilter
  rw [← isFilter]
  rfl

namespace Sieving

/-- The window holds what the file has. -/
structure Holds
    (sieving : Sieving)
    (sieve : Sieve) : Prop where
  off_nonneg : 0 ≤ sieve.readbufOff
  len_nonneg : 0 ≤ sieve.readbufLen
  len_le : sieve.readbufLen ≤ sieve.allocated
  large : sieving.maxBufsize ≤ sieve.allocated
  bytes : ∀ index, 0 ≤ index → index < sieve.readbufLen →
    sieve.readbufOff + index < sieving.file.size →
      sieve.readbuf index = sieving.file.contents (sieve.readbufOff + index).toNat

variable {sieving : Sieving}

variable {sieve : Sieve}

/-- A window whose first bytes are there is filled. -/
theorem fill_holds
    {base : Int}
    (baseNonneg : 0 ≤ base)
    (baseLe : base ≤ sieve.readbufLen)
    (offNonneg : 0 ≤ sieve.readbufOff)
    (lenLe : sieve.readbufLen ≤ sieve.allocated)
    (large : sieving.maxBufsize ≤ sieve.allocated)
    (bytes : ∀ index, 0 ≤ index → index < base → sieve.readbufOff + index < sieving.file.size →
        sieve.readbuf index = sieving.file.contents (sieve.readbufOff + index).toNat) :
    ∃ later, sieving.fill sieve base = some later ∧ sieving.Holds later ∧
      later.readbufOff = sieve.readbufOff ∧ later.readbufLen = sieve.readbufLen := by
  unfold fill readContig
  rw [if_pos ⟨baseNonneg, lenLe⟩, if_pos ⟨by omega, by omega⟩]
  refine ⟨_, rfl, ⟨offNonneg, by dsimp only; omega, lenLe, large, ?_⟩, rfl, rfl⟩
  intro index nonneg inside inFile
  dsimp only at inside inFile ⊢
  unfold memcpy
  by_cases isNew : base ≤ index
  · rw [if_pos (by omega)]
    apply congrArg (fun place : Int => sieving.file.contents place.toNat)
    omega
  · rw [if_neg (by omega)]
    exact bytes index nonneg (by omega) inFile

theorem malloc_holds
    (sieving : Sieving)
    (nonneg : 0 ≤ sieving.maxBufsize) :
    sieving.Holds sieving.malloc :=
  ⟨le_rfl, le_rfl, nonneg, le_rfl, fun _ lower upper _ =>
    absurd upper (not_lt.mpr lower)⟩

/-- A new window. -/
theorem window_holds
    (holds : sieving.Holds sieve)
    (maxNonneg : 0 ≤ sieving.maxBufsize)
    (fits : sieving.maxBufsize < 2 ^ 31)
    {off : Int}
    (offNonneg : 0 ≤ off)
    (offLe : off ≤ sieving.endOffset + 1) :
    ∃ later, sieving.window sieve off = some later ∧ sieving.Holds later ∧
      later.readbufOff = off ∧ 0 ≤ later.readbufLen := by
  have large := holds.large
  unfold window
  rw [toInt_of_fits (by omega) (by omega)]
  obtain ⟨later, isLater, laterHolds, isOff, _⟩ := @fill_holds sieving { sieve with
    readbufOff := off
    readbufLen := min sieving.maxBufsize (sieving.endOffset - off + 1) } 0 le_rfl
    (by dsimp only; omega) offNonneg (by dsimp only; omega) large
    (fun _ lower upper => absurd upper (not_lt.mpr lower))
  exact ⟨later, isLater, laterHolds, isOff, laterHolds.len_nonneg⟩

/-- The window is extended from the request on, as far as the lengths fit an `int`. -/
theorem extend_holds
    (holds : sieving.Holds sieve)
    (positive : 0 < sieving.maxBufsize)
    {reqOff : Int}
    (lower : sieve.readbufOff ≤ reqOff)
    (upper : reqOff ≤ sieve.readbufOff + sieve.readbufLen)
    (wanted : reqOff ≤ sieving.endOffset)
    (fits : sieve.readbufOff + sieve.readbufLen - reqOff + sieving.maxBufsize < 2 ^ 31) :
    ∃ later, sieving.extend reqOff sieve = some later ∧ sieving.Holds later ∧
      later.readbufOff = reqOff ∧
      sieve.readbufOff + sieve.readbufLen < later.readbufOff + later.readbufLen := by
  have offNonneg := holds.off_nonneg
  have lenLe := holds.len_le
  unfold extend
  dsimp only
  rw [toInt_of_fits (show -2 ^ 31 ≤ sieve.readbufOff + sieve.readbufLen - reqOff by omega)
    (by omega), toInt_of_fits (by omega) fits, toInt_of_fits (by omega) (by omega),
    if_pos ⟨by omega, by omega, lenLe⟩]
  obtain ⟨later, isLater, laterHolds, isOff, isLen⟩ := @fill_holds sieving
    ⟨sieve.readbufOff + (sieve.readbufLen - (sieve.readbufOff + sieve.readbufLen - reqOff)),
      sieve.readbufOff + sieve.readbufLen - reqOff + min sieving.maxBufsize (sieving.endOffset -
          (sieve.readbufOff +
            (sieve.readbufLen - (sieve.readbufOff + sieve.readbufLen - reqOff))) + 1),
      sieve.readbufOff + sieve.readbufLen - reqOff + sieving.maxBufsize,
      memcpy (sieving.garbage (sieve.mallocs + 1)) 0
        (sieve.readbufOff + sieve.readbufLen - reqOff) fun index =>
          sieve.readbuf (sieve.readbufLen - (sieve.readbufOff + sieve.readbufLen - reqOff) + index),
      sieve.mallocs + 1⟩
    (sieve.readbufOff + sieve.readbufLen - reqOff) (by omega) (by dsimp only; omega)
    (by dsimp only; omega) (by dsimp only; omega) (by dsimp only; omega)
    (by
      intro index nonneg inside inFile
      dsimp only at inFile ⊢
      unfold memcpy
      rw [if_pos (by omega), Int.sub_zero]
      dsimp only
      rw [holds.bytes _ (by omega) (by omega) (by omega)]
      apply congrArg (fun place : Int => sieving.file.contents place.toNat)
      omega)
  dsimp only at isOff isLen
  refine ⟨later, isLater, laterHolds, by omega, by omega⟩

/-- A request that is not in front of the window comes to lie in it. -/
theorem reach_yields
    (holds : sieving.Holds sieve)
    (positive : 0 < sieving.maxBufsize)
    {request : Request}
    (lenNonneg : 0 ≤ request.reqLen)
    (fits : request.reqLen + sieving.maxBufsize < 2 ^ 31)
    (order : sieve.readbufOff ≤ request.reqOff)
    (offLe : request.reqOff ≤ sieving.endOffset + 1)
    (wanted : 0 < request.reqLen → request.reqOff ≤ sieving.endOffset) :
    ∃ later, Yields (sieving.reach · sieve request) later ∧ sieving.Holds later ∧
      later.readbufOff ≤ request.reqOff ∧
      request.reqOff + request.reqLen ≤ later.readbufOff + later.readbufLen := by
  have offNonneg := holds.off_nonneg
  obtain ⟨first, isFirst, firstHolds, firstOrder, inside⟩ : ∃ first,
      (if sieve.readbufOff + sieve.readbufLen ≤ request.reqOff then
        sieving.window sieve request.reqOff else some sieve) = some first ∧
      sieving.Holds first ∧ first.readbufOff ≤ request.reqOff ∧
      request.reqOff ≤ first.readbufOff + first.readbufLen := by
    by_cases behind : sieve.readbufOff + sieve.readbufLen ≤ request.reqOff
    · rw [if_pos behind]
      obtain ⟨first, isFirst, firstHolds, isOff, _⟩ :=
        window_holds holds positive.le (by omega) (offNonneg.trans order) offLe
      exact ⟨first, isFirst, firstHolds, by omega, by omega⟩
    · rw [if_neg behind]
      exact ⟨sieve, rfl, holds, order, by omega⟩
  obtain ⟨final, ⟨finalHolds, finalOrder, finalInside⟩, done, yields⟩ :=
    @whileLoop_of_invariant Sieve
      (fun sieve => sieve.readbufOff + sieve.readbufLen - request.reqOff < request.reqLen)
      (sieving.extend request.reqOff) _ Nat _ _
      (fun sieve => sieving.Holds sieve ∧ sieve.readbufOff ≤ request.reqOff ∧
        request.reqOff ≤ sieve.readbufOff + sieve.readbufLen)
      (fun sieve =>
        (request.reqOff + request.reqLen - (sieve.readbufOff + sieve.readbufLen)).toNat)
      (by
        rintro sieve ⟨holds, lower, upper⟩ goesOn
        have short := of_decide_eq_true goesOn
        obtain ⟨later, isLater, laterHolds, isOff, grown⟩ :=
          extend_holds holds positive lower upper (wanted (by omega)) (by omega)
        exact ⟨later, isLater, ⟨laterHolds, by omega, by omega⟩, by omega⟩)
      ⟨firstHolds, firstOrder, inside⟩
  have isLong := of_decide_eq_false done
  refine ⟨final, ?_, finalHolds, finalOrder, by omega⟩
  refine yields.congr fun fuel => ?_
  unfold reach
  rw [isFirst, Option.bind_some]

end Sieving

/-- What has been copied for a byte: the byte of the file, if the file has it. -/
def Copied
    (file : File)
    (byte : Int × Int)
    (write : Int × Byte) : Prop :=
  write.1 = byte.2 ∧ (byte.1 < file.size → write.2 = file.contents byte.1.toNat)

variable {sieve : Sieve}

/-- Requests that go forward are read, inside the allocations. What is written does not
depend on what the memory holds. -/
theorem bufferedRead_yields
    {sieving : Sieving}
    (positive : 0 < sieving.maxBufsize)
    {requests : List Request}
    (holds : sieving.Holds sieve)
    (forward : requests.Pairwise fun request later => request.reqOff ≤ later.reqOff)
    (order : ∀ request ∈ requests, sieve.readbufOff ≤ request.reqOff)
    (fits : ∀ request ∈ requests, request.reqLen + sieving.maxBufsize < 2 ^ 31)
    (within : ∀ request ∈ requests, 0 ≤ request.reqLen ∧ request.reqOff ≤ sieving.endOffset + 1 ∧
      (0 < request.reqLen → request.reqOff ≤ sieving.endOffset)) :
    ∃ writes, List.Forall₂ (Copied sieving.file) (Call.bytesOf requests) writes ∧
      ∀ memory, Yields (sieving.bufferedRead · requests sieve memory) (lay memory writes) := by
  induction requests generalizing sieve with
  | nil => exact ⟨[], .nil, fun memory => .of_eq fun _ => rfl⟩
  | cons request rest ih =>
    obtain ⟨lenNonneg, offLe, wanted⟩ := within request mem_cons_self
    obtain ⟨later, reached, laterHolds, laterOrder, inside⟩ := Sieving.reach_yields holds
      positive lenNonneg (fits request mem_cons_self) (order request mem_cons_self) offLe wanted
    obtain ⟨isFirst, forwardRest⟩ := pairwise_cons.mp forward
    obtain ⟨writes, copied, yields⟩ := ih laterHolds forwardRest
      (fun other member => laterOrder.trans (isFirst other member))
      (fun other member => fits other (mem_cons_of_mem request member))
      (fun other member => within other (mem_cons_of_mem request member))
    have lenLe := laterHolds.len_le
    have isCopy : ∀ memory, later.copyOut request memory =
        some (lay memory ((List.range request.reqLen.toNat).map fun (index : Nat) =>
          (request.userbufOff + index,
            later.readbuf (request.reqOff - later.readbufOff + index)))) := by
      intro memory
      unfold Sieve.copyOut
      rw [if_pos ⟨by omega, by omega⟩, memcpy_eq_lay]
    refine ⟨(List.range request.reqLen.toNat).map (fun (index : Nat) =>
        (request.userbufOff + index,
          later.readbuf (request.reqOff - later.readbufOff + index))) ++ writes,
      rel_append ?_ copied, fun memory => ?_⟩
    · refine forall₂_map_left_iff.mpr (forall₂_map_right_iff.mpr ?_)
      refine forall₂_same.mpr fun index member => ⟨rfl, fun inFile => ?_⟩
      have less := mem_range.mp member
      rw [laterHolds.bytes _ (by omega) (by omega) (by omega)]
      apply congrArg (fun place : Int => sieving.file.contents place.toNat)
      omega
    · rw [lay_append]
      refine Yields.congr (reached.bind ?_) fun fuel => rfl
      refine (yields _).congr fun fuel => ?_
      rw [isCopy memory, Option.bind_some]

end Mpich.Romio.Strided
