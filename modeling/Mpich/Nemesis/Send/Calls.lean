import Mpich.Nemesis.Send.Steps

/-!
# Calls of the send path

Each way to send keeps the invariant of the send queue and fails no assertion. An
`iSend` and a segment may be sent at once only under a condition.
-/

namespace Mpich.Nemesis.Send

open List

variable {Vc Byte : Type*}

/-- The header that is kept in a request is the caller's. -/
theorem read_copyPkt
    (sizes : Sizes)
    (hdr old : Nat → Byte)
    {len : Nat}
    (short : len ≤ sizes.pkt) :
    read (sizes.copyPkt hdr old) 0 len = read hdr 0 len := by
  apply Mpich.Buffer.tabulate_congr
  intro index inside
  have bounded := sizes.pkt_le_generic
  unfold Sizes.copyPkt
  rw [zero_add, if_pos (by omega)]

theorem bytes_pieces
    (headers : Headers Byte)
    (pieces : List (Piece Byte)) :
    bytes headers (pieces.map Piece.iov) = pieces.flatMap Piece.bytes :=
  flatMap_map ..

theorem kept_pieces (pieces : List (Piece Byte)) :
    ∀ entry ∈ pieces.map Piece.iov, entry.buf ≠ .caller := by
  intro entry member
  obtain ⟨piece, _, rfl⟩ := mem_map.mp member
  nofun

namespace Request

variable {sizes : Sizes} (sreq : Request Vc Byte)

/-- All of the IOV is left when the offset is 0. -/
theorem entries_eq
    {sreq : Request Vc Byte}
    (offset : sreq.iovOffset = 0)
    (count : sreq.iovCount = sreq.iov.length) :
    sreq.entries = sreq.iov := by
  unfold entries
  rw [offset, count, drop_zero, take_length]

theorem keepHeader_entries
    (vc : Vc)
    (hdr : Nat → Byte)
    (data : List (Piece Byte)) :
    (sreq.keepHeader sizes vc hdr data).entries =
      ⟨.pendingPkt, 0, sizes.pkt⟩ :: data.map Piece.iov :=
  entries_eq rfl (by simp [keepHeader])

theorem keepHeader_valid
    (vc : Vc)
    (hdr : Nat → Byte)
    (data : List (Piece Byte))
    (begun : Bool) :
    (sreq.keepHeader sizes vc hdr data).Valid sizes begun where
  inside := fun _ => by simp [keepHeader]
  kept := fun _ => by
    rw [keepHeader_entries]
    exact forall_mem_cons.mpr ⟨nofun, kept_pieces data⟩
  left := fun _ => ⟨_, _, sreq.keepHeader_entries vc hdr data, sizes.pkt_pos⟩
  header := fun _ _ => ⟨_, sreq.keepHeader_entries vc hdr data⟩
  null := nofun
  segmentHeader := nofun
  segmentLeft := nofun

/-- A request for a whole message has all of it left. -/
theorem keepHeader_rest
    (vc : Vc)
    (hdr : Nat → Byte)
    (data : List (Piece Byte))
    (begun : Bool) :
    (sreq.keepHeader sizes vc hdr data).rest sizes begun =
      read hdr 0 sizes.pkt ++ data.flatMap Piece.bytes ++ sreq.onDataAvail.bytes := by
  unfold rest
  rw [keepHeader_entries]
  refine congrArg (· ++ sreq.onDataAvail.bytes) ?_
  refine (flatMap_cons ..).trans ?_
  congr 1
  · exact read_copyPkt sizes hdr sreq.pendingPkt (le_refl _)
  · exact bytes_pieces _ data

/-- When the header has not been sent, a whole message is kept. -/
theorem keepRest_whole
    (vc : Vc)
    (hdr : Nat → Byte)
    (header : Iov Byte)
    (data : List (Piece Byte)) :
    sreq.keepRest sizes vc hdr (header :: data.map Piece.iov) (header :: data.map Piece.iov) =
      sreq.keepHeader sizes vc hdr data := by
  simp [keepRest, keepHeader]

/-- When the header has been sent, what is left of the data is kept. -/
theorem keepRest_part
    (vc : Vc)
    (hdr : Nat → Byte)
    {iov remaining : List (Iov Byte)}
    (sent : remaining.length < iov.length) :
    sreq.keepRest sizes vc hdr iov remaining =
      { sreq with
        vc := vc
        noncontig := false
        iov := remaining
        iovOffset := 0
        iovCount := remaining.length } := by
  unfold keepRest
  rw [if_neg (ne_of_lt sent), if_neg (ne_of_lt sent)]

/-- A request whose message has begun, with an IOV that has been loaded. -/
theorem loaded_valid
    {sreq : Request Vc Byte}
    (contig : sreq.noncontig = false)
    (offset : sreq.iovOffset = 0)
    (count : sreq.iovCount = sreq.iov.length)
    (kept : ∀ entry ∈ sreq.iov, entry.buf ≠ .caller)
    (left : Ready sreq.iov) :
    sreq.Valid sizes true where
  inside := fun _ => by
    rw [offset, count, zero_add]
  kept := fun _ => by rwa [entries_eq offset count]
  left := fun _ => by rwa [entries_eq offset count]
  header := nofun
  null := fun noncontig => absurd noncontig (by rw [contig]; nofun)
  segmentHeader := nofun
  segmentLeft := fun noncontig => absurd noncontig (by rw [contig]; nofun)

theorem loaded_rest
    {sreq : Request Vc Byte}
    (contig : sreq.noncontig = false)
    (offset : sreq.iovOffset = 0)
    (count : sreq.iovCount = sreq.iov.length)
    (begun : Bool) :
    sreq.rest sizes begun =
      bytes ⟨sreq.pendingPkt, sreq.pendingPkt⟩ sreq.iov ++ sreq.onDataAvail.bytes := by
  unfold rest
  rw [contig, if_neg nofun, entries_eq offset count]

/-- `OnDataAvail` completes the request and supplies nothing, or it loads an IOV with
the data that it supplies next. -/
theorem dataAvail_cases (sreq : Request Vc Byte) :
    (sreq.dataAvail = none ∧ sreq.onDataAvail.bytes = []) ∨
      ∃ load next, sreq.onDataAvail = .reload load next ∧
        sreq.dataAvail = some { sreq with
          iov := load.pieces.map Piece.iov
          iovCount := load.pieces.length
          onDataAvail := next } := by
  unfold dataAvail
  cases sreq.onDataAvail with
  | null => exact .inl ⟨rfl, rfl⟩
  | final => exact .inl ⟨rfl, rfl⟩
  | reload load next => exact .inr ⟨load, next, rfl, rfl⟩

theorem ready_load (load : Load Byte) :
    Ready (load.pieces.map Piece.iov) :=
  ⟨load.first.iov, load.rest.map Piece.iov, rfl, load.positive⟩

end Request

namespace State.Invariant

variable [DecidableEq Vc] {sizes : Sizes} {state : State Vc Byte} {head : Nat}

/-- A whole message along an IOV is sent, or the rest of it is enqueued. -/
theorem startsMessage
    (invariant : state.Invariant sizes head)
    (empty : state.sendQ = [])
    (free : Free)
    (call : Call Vc Byte)
    (sreq : Request Vc Byte)
    (hdr : Nat → Byte)
    (data : List (Piece Byte))
    (whole : call.message sizes =
      read hdr 0 sizes.pkt ++ data.flatMap Piece.bytes ++ sreq.onDataAvail.bytes) :
    let iov : List (Iov Byte) := ⟨.caller, 0, sizes.pkt⟩ :: data.map Piece.iov
    let sent := sizes.sendvMessage ⟨hdr, sreq.pendingPkt⟩ free iov
    (sent.again = true → ∃ next, ({ state with calls := state.calls ++ [call] }.emit
        call.vc sent.packets).enqueueActive state.calls.length
          (sreq.keepRest sizes call.vc hdr iov sent.iov) = some next ∧
        next.Invariant sizes head) ∧
      (sent.again = false → sent.packets.flatten =
        read hdr 0 sizes.pkt ++ data.flatMap Piece.bytes) := by
  intro iov sent
  rcases sizes.sendvMessage_along ⟨hdr, sreq.pendingPkt⟩ free
      ⟨.caller, 0, sizes.pkt⟩ (data.map Piece.iov) with
    ⟨isNone, _⟩ | ⟨later, along, _, packets, left, again⟩
  · have isSent : sent = ⟨[], iov, true⟩ := isNone
    rw [isSent]
    refine ⟨fun _ => ?_, nofun⟩
    rw [Request.keepRest_whole]
    apply invariant.started empty call _ rfl (sreq.keepHeader_valid ..)
    rw [sreq.keepHeader_rest, whole]
    rfl
  · have total := along.bytes
    rw [bytes_pieces] at total
    refine ⟨?_, ?_⟩
    · intro isAgain
      have ready : Ready later.iov := by
        rcases along.stopped with ⟨_, ready⟩ | ⟨done, _⟩
        · exact ready
        · have isDone := again.symm.trans isAgain
          rw [done] at isDone
          cases isDone
      have kept := along.inside (· ≠ .caller) (kept_pieces data)
      have shorter : sent.iov.length < iov.length := by
        rw [left, length_cons]
        exact Nat.lt_succ_of_le along.length_le
      have isLeft : sent.iov = later.iov := left
      rw [Request.keepRest_part sreq _ _ shorter, isLeft]
      apply invariant.started empty call _ rfl
      · exact Request.loaded_valid rfl rfl rfl kept ready
      · rw [Request.loaded_rest rfl rfl rfl, packets, whole, ← total,
          bytes_of_kept hdr sreq.pendingPkt kept]
        simp [Iov.bytes, Buffer.content, append_assoc]
    · intro isDone
      have nothing : later.iov = [] := by
        rcases along.stopped with ⟨isAgain, _⟩ | ⟨_, nothing⟩
        · have isAgain := isAgain.symm.trans (again.symm.trans isDone)
          cases isAgain
        · exact nothing
      rw [nothing] at total
      rw [packets, ← total]
      simp [Iov.bytes, Buffer.content, bytes]

omit [DecidableEq Vc] in
theorem isEmpty_iff {state : State Vc Byte} :
    (state.sendQ.isEmpty = true) ↔ state.sendQ = [] :=
  List.isEmpty_iff

theorem emit_nil
    (state : State Vc Byte)
    (vc : Vc) :
    state.emit vc [] = state := by
  unfold emit
  rw [append_nil, Function.update_eq_self]

section

variable
    (invariant : state.Invariant sizes head)
    (free : Free)
    (vc : Vc)

include invariant free vc

theorem call_iStartMsg
    (hdr : Nat → Byte)
    (created : Request Vc Byte) :
    ∃ next, state.call sizes free (.iStartMsg vc hdr created) = some next ∧
      ∃ later, next.Invariant sizes later := by
  have kept := invariant.enqueued
    (.iStartMsg vc hdr created)
    ({ created with onDataAvail := .null }.keepHeader sizes vc hdr [])
    rfl (Request.keepHeader_valid _ _ _ _ _)
    (by rw [Request.keepHeader_rest]; simp [OnDataAvail.bytes, Call.message])
  unfold call
  unfold iStartMsg
  by_cases empty : state.sendQ.isEmpty = true
  · simp only [if_pos empty]
    unfold Sizes.sendHeader
    split
    · rename_i packet isPacket
      split at isPacket
      · cases isPacket
        exact ⟨_, rfl, _, invariant.passed (isEmpty_iff.mp empty)
          (.iStartMsg vc hdr created) (by simp [Call.message])⟩
      · cases isPacket
    · exact ⟨_, rfl, _, kept⟩
  · simp only [if_neg empty]
    exact ⟨_, rfl, _, kept⟩

theorem call_iStartMsgv
    (hdr : Nat → Byte)
    (data : List (Piece Byte))
    (created : Request Vc Byte) :
    ∃ next, state.call sizes free (.iStartMsgv vc hdr data created) = some next ∧
      ∃ later, next.Invariant sizes later := by
  have whole : (Call.iStartMsgv vc hdr data created).message sizes =
      read hdr 0 sizes.pkt ++ data.flatMap Piece.bytes ++ OnDataAvail.null.bytes := by
    simp [OnDataAvail.bytes, Call.message]
  unfold call
  unfold iStartMsgv
  by_cases empty : state.sendQ.isEmpty = true
  · simp only [if_pos empty]
    obtain ⟨begins, ends⟩ := invariant.startsMessage (isEmpty_iff.mp empty) free
      (.iStartMsgv vc hdr data created) { created with onDataAvail := .null } hdr data whole
    split
    · rename_i again
      obtain ⟨next, stepped, later⟩ := begins again
      exact ⟨next, stepped, _, later⟩
    · rename_i done
      refine ⟨_, rfl, _, invariant.passed (isEmpty_iff.mp empty)
        (.iStartMsgv vc hdr data created) ?_⟩
      exact ends (Bool.eq_false_of_not_eq_true done)
  · simp only [if_neg empty]
    refine ⟨_, rfl, head, invariant.enqueued (.iStartMsgv vc hdr data created)
      ({ created with onDataAvail := .null }.keepHeader sizes vc hdr data)
      rfl (Request.keepHeader_valid _ _ _ _ _) ?_⟩
    rw [Request.keepHeader_rest, whole]

/-- A header that is sent at once completes its request, unless `OnDataAvail` loads
the request again. -/
theorem call_iSend
    (sreq : Request Vc Byte)
    (hdr : Nat → Byte)
    (careful : state.sendQ = [] → (sizes.sendHeader free hdr).isSome → sreq.dataAvail = none) :
    ∃ next, state.call sizes free (.iSend vc sreq hdr) = some next ∧
      ∃ later, next.Invariant sizes later := by
  have kept := invariant.enqueued
    (.iSend vc sreq hdr)
    (sreq.keepHeader sizes vc hdr [])
    rfl (Request.keepHeader_valid _ _ _ _ _)
    (by rw [Request.keepHeader_rest]; simp [Call.message])
  unfold call
  unfold iSend
  by_cases empty : state.sendQ.isEmpty = true
  · simp only [if_pos empty]
    cases isSent : sizes.sendHeader free hdr with
    | none => exact ⟨_, rfl, _, kept⟩
    | some packet =>
      have isDone := careful (isEmpty_iff.mp empty) (by rw [isSent]; rfl)
      have isPacket : packet = read hdr 0 sizes.pkt := by
        unfold Sizes.sendHeader at isSent
        split at isSent
        · exact (Option.some.inj isSent).symm
        · cases isSent
      have nothing : sreq.onDataAvail.bytes = [] := by
        rcases sreq.dataAvail_cases with ⟨_, nothing⟩ | ⟨load, next, _, reloads⟩
        · exact nothing
        · rw [isDone] at reloads
          cases reloads
      have sent := invariant.passed (isEmpty_iff.mp empty)
        (.iSend vc sreq hdr)
        (show [packet].flatten = _ by simp [Call.message, isPacket, nothing])
      simp only [isDone]
      exact ⟨_, rfl, _, sent.completes (invariant.unused _ (le_refl _)) sreq⟩
  · simp only [if_neg empty]
    exact ⟨_, rfl, _, kept⟩

theorem call_iSendv
    (sreq : Request Vc Byte)
    (hdr : Nat → Byte)
    (data : List (Piece Byte)) :
    ∃ next, state.call sizes free (.iSendv vc sreq hdr data) = some next ∧
      ∃ later, next.Invariant sizes later := by
  unfold call
  unfold iSendv
  by_cases empty : state.sendQ.isEmpty = true
  · simp only [if_pos empty]
    obtain ⟨begins, ends⟩ := invariant.startsMessage (isEmpty_iff.mp empty) free
      (.iSendv vc sreq hdr data) sreq hdr data rfl
    split
    · rename_i again
      obtain ⟨next, stepped, later⟩ := begins again
      exact ⟨next, stepped, _, later⟩
    · rename_i done
      have ends := ends (Bool.eq_false_of_not_eq_true done)
      rcases sreq.dataAvail_cases with ⟨completes, nothing⟩ | ⟨load, next, isNext, reloads⟩
      · simp only [completes]
        have sent := invariant.passed (isEmpty_iff.mp empty)
          (.iSendv vc sreq hdr data)
          (ends.trans (by simp [Call.message, nothing]))
        exact ⟨_, rfl, _, sent.completes (invariant.unused _ (le_refl _)) sreq⟩
      · simp only [reloads]
        obtain ⟨after, stepped, later⟩ := invariant.started (isEmpty_iff.mp empty)
          (.iSendv vc sreq hdr data)
          ({ sreq with
            iov := load.pieces.map Piece.iov
            iovCount := load.pieces.length
            onDataAvail := next
            iovOffset := 0
            noncontig := false
            vc := vc })
          rfl
          (Request.loaded_valid rfl rfl (length_map _).symm
            (kept_pieces load.pieces) (Request.ready_load load))
          (by
            rw [ends, Request.loaded_rest rfl rfl (length_map _).symm, bytes_pieces]
            simp [Call.message, isNext, OnDataAvail.bytes])
        exact ⟨after, stepped, _, later⟩
  · simp only [if_neg empty]
    exact ⟨_, rfl, head, invariant.enqueued (.iSendv vc sreq hdr data)
      (sreq.keepHeader sizes vc hdr data)
      rfl (Request.keepHeader_valid _ _ _ _ _) (Request.keepHeader_rest _ _ _ _ _)⟩

theorem call_sendNoncontig
    (sreq : Request Vc Byte)
    (header : Nat → Byte)
    (hdrSz : Nat)
    (short : hdrSz ≤ sizes.pkt)
    (first : sreq.segmentFirst = 0)
    (careful : state.sendQ = [] → sizes.Packs free sreq.segmentSize) :
    ∃ next, state.call sizes free (.sendNoncontig vc sreq header hdrSz) = some next ∧
      ∃ later, next.Invariant sizes later := by
  have isHeader : sizes.segHeader (sizes.copyPkt header sreq.pendingPkt) hdrSz =
      sizes.segHeader header hdrSz := by
    unfold Sizes.segHeader
    rw [read_copyPkt sizes header sreq.pendingPkt short]
  have kept := invariant.enqueued
    (.sendNoncontig vc sreq header hdrSz)
    ({ sreq with
      onDataAvail := .null
      vc := vc
      noncontig := true
      pendingPkt := sizes.copyPkt header sreq.pendingPkt
      headerSz := hdrSz })
    rfl ⟨nofun, nofun, nofun, nofun, fun _ => rfl, fun _ _ => ⟨short, first⟩, fun _ => nofun⟩
    (by simp [Request.rest, Call.message, first, isHeader])
  unfold call
  unfold sendNoncontig
  by_cases empty : state.sendQ.isEmpty = true
  · simp only [if_pos empty, first, short, and_self, if_true]
    rcases sizes.sendSegMessage_along free header hdrSz sreq.segment sreq.segmentSize with
      ⟨isNone, _⟩ | ⟨later, along, _, packets, left, again, advances⟩
    · simp only [isNone, if_true]
      rw [first] at kept
      rw [emit_nil]
      exact ⟨_, rfl, _, kept⟩
    · have taken := along.bytes
      by_cases isAgain : later.again = true
      · have positive := advances (careful (isEmpty_iff.mp empty)) isAgain
        have inside : later.first < sreq.segmentSize := by
          rcases along.stopped with ⟨_, inside⟩ | ⟨done, _⟩
          · exact inside
          · rw [done] at isAgain
            cases isAgain
        rw [if_pos (again.trans isAgain), if_neg (by rw [left]; omega)]
        obtain ⟨next, stepped, holds⟩ := invariant.started (isEmpty_iff.mp empty)
          (.sendNoncontig vc sreq header hdrSz)
          ({ sreq with
            onDataAvail := .null
            vc := vc
            noncontig := true
            segmentFirst := (sizes.sendSegMessage free header hdrSz
              sreq.segment 0 sreq.segmentSize).first })
          rfl
          ⟨nofun, nofun, nofun, nofun, fun _ => rfl, fun _ => nofun,
            fun _ _ => lt_of_le_of_lt (le_of_eq left) inside⟩
          (by
            rw [packets, taken, left, append_assoc]
            exact congrArg (sizes.segHeader header hdrSz ++ ·)
              (read_append_of_le sreq.segment (Nat.zero_le _) (le_of_lt inside)))
        exact ⟨next, stepped, _, holds⟩
      · have isDone := Bool.eq_false_of_not_eq_true isAgain
        have whole : later.first = sreq.segmentSize := by
          rcases along.stopped with ⟨isAgain, _⟩ | ⟨_, whole⟩
          · rw [isDone] at isAgain
            cases isAgain
          · exact whole
        rw [if_neg (by rwa [again])]
        have sent := invariant.passed (isEmpty_iff.mp empty)
          (.sendNoncontig vc sreq header hdrSz)
          (packets.trans (by rw [taken, whole]; rfl))
        exact ⟨_, rfl, _, sent.completes (invariant.unused _ (le_refl _)) _⟩
  · simp only [if_neg empty]
    exact ⟨_, rfl, _, kept⟩

end

end Mpich.Nemesis.Send.State.Invariant
