import Mpich.Coll.Folding

/-!
# Scan and Exscan

`MPIR_Scan` and `MPIR_Exscan`: in each round of a recursive doubling a process
exchanges its partial scan with its partner, if there is one. What comes from a
lower rank also goes into the receive buffer. The two functions differ in how the
receive buffer starts and takes what comes in.
-/

namespace Mpich.Coll.Scan

open MessagePassing Masks List Buffer OrderedProduct

variable {Cell : Type}

/-- The buffers of a process, and the `flag` of `MPIR_Exscan`. -/
structure Buffers (Cell : Type) where
  partialScan : List Cell
  tmpBuf : List Cell
  recvbuf : List Cell
  flag : Bool

/-- One process's call. -/
structure Call (Cell : Type) where
  /-- What its receives demand of a message. -/
  check : LengthCheck
  commSize : Nat
  rank : Nat
  /-- The send buffer of `MPIR_Scan` is `MPI_IN_PLACE`. -/
  inPlace : Bool
  sendbuf : List Cell
  recvbuf : List Cell
  count : Nat
  kind : OpKind
  uop : Cell → Cell → Cell
  /-- What the allocated `partial_scan` holds before it is written. -/
  partialGarbage : Nat → Cell
  /-- What the allocated `tmp_buf` holds before it is written. -/
  tmpGarbage : Nat → Cell

namespace Call

variable (call : Call Cell)

/-- Combine `tmp_buf` with `partial_scan`. -/
def combinePartial (dst : Nat) (buffers : Buffers Cell) : Option (Buffers Cell) :=
  if dst < call.rank ∨ call.kind.isCommutative then
    (applyOp call.uop buffers.tmpBuf 0 buffers.partialScan 0 call.count).map
      fun partialScan => { buffers with partialScan }
  else
    (applyOp call.uop buffers.partialScan 0 buffers.tmpBuf 0 call.count).bind
      fun tmpBuf =>
    (localcopy tmpBuf 0 buffers.partialScan 0 call.count).map fun partialScan =>
      { buffers with partialScan, tmpBuf }

/-- `MPIR_Scan` combines what comes from a lower rank with `recvbuf`. -/
def scanTake (buffers : Buffers Cell) : Option (Buffers Cell) :=
  (applyOp call.uop buffers.tmpBuf 0 buffers.recvbuf 0 call.count).map
    fun recvbuf => { buffers with recvbuf }

/-- `MPIR_Exscan` copies what comes first from a lower rank. -/
def exscanTake (buffers : Buffers Cell) : Option (Buffers Cell) :=
  if call.rank ≠ 0 then
    if buffers.flag = false then
      (localcopy buffers.tmpBuf 0 buffers.recvbuf 0 call.count).map
        fun recvbuf => { buffers with recvbuf, flag := true }
    else call.scanTake buffers
  else some buffers

/-- What is done with `tmp_buf` after an exchange. -/
def absorb
    (take : Buffers Cell → Option (Buffers Cell))
    (dst : Nat)
    (buffers : Buffers Cell) : Option (Buffers Cell) :=
  (call.combinePartial dst buffers).bind fun buffers =>
    if dst < call.rank then take buffers else some buffers

/-- `MPIC_Sendrecv` of `partial_scan`, into `tmp_buf`. -/
def sendrecv (dst : Nat) (buffers : Buffers Cell) :
    Prog Nat (List Cell) (Buffers Cell) := do
  let msg ← Prog.ofOption (load buffers.partialScan 0 call.count)
  mpicSend dst msg
  let incoming ← call.check.recv dst call.count
  let tmpBuf ← Prog.ofOption (store buffers.tmpBuf 0 incoming)
  pure { buffers with tmpBuf }

/-- The loop of both functions. -/
def doublingLoop (take : Buffers Cell → Option (Buffers Cell)) :
    Nat → Nat → Buffers Cell → Prog Nat (List Cell) (Buffers Cell)
  | 0, mask, buffers => if mask < call.commSize then .fail else pure buffers
  | fuel + 1, mask, buffers =>
    if mask < call.commSize then do
      let dst := call.rank ^^^ mask
      if dst < call.commSize then
        let buffers ← call.sendrecv dst buffers
        let buffers ← Prog.ofOption (call.absorb take dst buffers)
        doublingLoop take fuel (mask <<< 1) buffers
      else doublingLoop take fuel (mask <<< 1) buffers
    else pure buffers

/-- The buffers with the process's own elements in `partial_scan`. -/
def startPartial (own recvbuf : List Cell) : Option (Buffers Cell) :=
  (localcopy own 0 (tabulate call.count call.partialGarbage) 0
    call.count).map fun partialScan =>
      { partialScan, recvbuf, tmpBuf := tabulate call.count call.tmpGarbage
        flag := false }

/-- `MPIR_Scan` copies the process's own elements into `recvbuf` as well. -/
def scanStart : Option (Buffers Cell) :=
  if call.inPlace then call.startPartial call.recvbuf call.recvbuf
  else
    (localcopy call.sendbuf 0 call.recvbuf 0 call.count).bind fun recvbuf =>
      call.startPartial call.sendbuf recvbuf

/-- `MPIR_Scan`, with the receive buffer at its end. -/
def scan : Prog Nat (List Cell) (List Cell) :=
  if call.count = 0 then pure call.recvbuf
  else do
    let buffers ← Prog.ofOption call.scanStart
    let buffers ← call.doublingLoop call.scanTake call.commSize 1 buffers
    pure buffers.recvbuf

/-- `MPIR_Exscan`, with the receive buffer at its end. -/
def exscan : Prog Nat (List Cell) (List Cell) :=
  if call.count = 0 then pure call.recvbuf
  else do
    let buffers ← Prog.ofOption (call.startPartial call.sendbuf call.recvbuf)
    let buffers ← call.doublingLoop call.exscanTake call.commSize 1 buffers
    pure buffers.recvbuf

end Call

/-- What the calls of all processes have in common. -/
structure Shape where
  commSize : Nat
  count : Nat
  kind : OpKind
  /-- A rank passes `MPI_IN_PLACE` to `MPIR_Scan` as its send buffer. -/
  inPlace : Nat → Bool

/-- What the memory of all processes holds: for each rank, its elements to be
combined, those of a receive buffer that is used for the result only, and the
elements that come from nowhere. -/
structure Contents (Cell : Type) where
  input : Nat → Nat → Cell
  output : Nat → Nat → Cell
  partialGarbage : Nat → Nat → Cell
  tmpGarbage : Nat → Nat → Cell

namespace Shape

variable (shape : Shape) (check : LengthCheck) (uop : Cell → Cell → Cell)
variable (contents : Contents Cell)

/-- The call of one rank; `MPIR_Exscan` is not called with `MPI_IN_PLACE`. -/
def call (exclusive : Bool) (rank : Nat) : Call Cell where
  check := check
  commSize := shape.commSize
  rank := rank
  inPlace := !exclusive && shape.inPlace rank
  sendbuf := tabulate shape.count (contents.input rank)
  recvbuf := tabulate shape.count
    (if !exclusive && shape.inPlace rank then contents.input rank
    else contents.output rank)
  count := shape.count
  kind := shape.kind
  uop := uop
  partialGarbage := contents.partialGarbage rank
  tmpGarbage := contents.tmpGarbage rank

/-- The programs of all ranks that call `MPIR_Scan`; there is nothing to run
outside the communicator. -/
def scanProgram (rank : Nat) : Prog Nat (List Cell) (List Cell) :=
  if rank < shape.commSize then (shape.call check uop contents false rank).scan
  else .done []

/-- The programs of all ranks that call `MPIR_Exscan`. -/
def exscanProgram (rank : Nat) : Prog Nat (List Cell) (List Cell) :=
  if rank < shape.commSize then (shape.call check uop contents true rank).exscan
  else .done []

/-- An order in which the elements of the first ranks may be combined. -/
def Allows (ranks : Nat) (order : List Nat) : Prop :=
  if shape.kind.isCommutative then order.Perm (List.range ranks)
  else order = List.range ranks

/-- A buffer holds the elements of the first ranks, combined. -/
def HoldsPrefix (ranks : Nat) (buffer : List Cell) : Prop :=
  buffer.length = shape.count ∧
    ∀ column < shape.count, ∃ value order, buffer[column]? = some value ∧ shape.Allows ranks order ∧
      product uop (fun rank => contents.input rank column) order = some value

/-- The number of rounds. -/
def levels : Nat :=
  Nat.clog 2 shape.commSize

/-- The partner's elements come first. -/
abbrev PartnerFirst (round rank : Nat) : Prop :=
  BitSet rank round ∨ shape.kind.isCommutative

/-- The partial scan of a rank at a position after some rounds. -/
def partialAt (round rank column : Nat) : Cell :=
  TruncatedButterfly.partialAt uop shape.PartnerFirst shape.commSize
    (fun rank => contents.input rank column) round rank

/-- The receive buffer of `MPIR_Scan` at a position after some rounds. -/
def inclusiveAt (round rank column : Nat) : Cell :=
  TruncatedButterfly.inclusiveAt uop shape.PartnerFirst shape.commSize
    (fun rank => contents.input rank column) round rank

/-- What has come from lower ranks at a position after some rounds. -/
def exclusiveAt (round rank column : Nat) : Option Cell :=
  TruncatedButterfly.exclusiveAt uop shape.PartnerFirst shape.commSize
    (fun rank => contents.input rank column) round rank

/-- The partial scans that are exchanged in a round. -/
def partialMsg (round rank : Nat) : List Cell :=
  tabulate shape.count (shape.partialAt uop contents round rank)

/-- A rank has a partner in a round. -/
def HasPartner (round rank : Nat) : Prop :=
  rank < shape.commSize ∧ rank ^^^ 2 ^ round < shape.commSize

instance (round : Nat) : DecidablePred (shape.HasPartner round) :=
  fun _ => inferInstanceAs (Decidable (_ ∧ _))

/-- The ranks with a partner exchange their partial scans. -/
def exchange (rank round : Nat) : Round Nat (List Cell) :=
  exchangeRound (shape.HasPartner round) (· ^^^ 2 ^ round) (· ^^^ 2 ^ round)
    (shape.partialMsg uop contents round) rank

variable {shape check uop contents}

/-- Every exchange is matched at both partners. -/
theorem exchange_agrees (schedule : List Nat) :
    ScheduleAgrees (shape.exchange uop contents) schedule := by
  intro round _ src dst
  apply exchangeRound_agrees
  · intro rank has
    exact ⟨has.2, by rw [xor_mask_xor_mask]; exact has.1⟩
  · intro rank has
    exact ⟨has.2, by rw [xor_mask_xor_mask]; exact has.1⟩
  · intro src dst _ _
    constructor
    · rintro rfl
      exact xor_mask_xor_mask _ _
    · rintro rfl
      exact xor_mask_xor_mask _ _

section

variable {rank dst : Nat} {own incoming : Nat → Cell} {exclusive : Bool}

/-- Both partners send their partial scans. -/
theorem ends_sendrecv
    {tmp : Nat → Cell}
    (recvbuf : List Cell)
    (flag : Bool) :
    ((shape.call check uop contents exclusive rank).sendrecv dst
        { partialScan := tabulate shape.count own
          tmpBuf := tabulate shape.count tmp
          recvbuf, flag }).Ends
      [.send dst (tabulate shape.count own), .recv dst (tabulate shape.count incoming)]
      { partialScan := tabulate shape.count own
        tmpBuf := tabulate shape.count incoming
        recvbuf, flag } :=
  (ends_ofOption (load_tabulate_all _ _)).bind
    ((ends_mpicSend _ _).bind
      ((check.ends_recv (length_tabulate _ _)).bind
        ((ends_ofOption (store_tabulate_all _ _ _)).bind (Prog.ends_done _))))

/-- The partial scan, with the partner's elements first or last. From a lower
rank, `tmp_buf` is left as it came. -/
theorem combinePartial_eq
    (recvbuf : List Cell)
    (flag : Bool) :
    ∃ tmp, (dst < rank → tmp = incoming) ∧
      (shape.call check uop contents exclusive rank).combinePartial dst
        { partialScan := tabulate shape.count own
          tmpBuf := tabulate shape.count incoming
          recvbuf, flag } =
      some
        { partialScan := tabulate shape.count fun column =>
            if dst < rank ∨ shape.kind.isCommutative then
              uop (incoming column) (own column)
            else uop (own column) (incoming column)
          tmpBuf := tabulate shape.count tmp
          recvbuf, flag } := by
  unfold Call.combinePartial call
  by_cases first : dst < rank ∨ shape.kind.isCommutative
  · refine ⟨incoming, fun _ => rfl, ?_⟩
    simp only [if_pos first]
    rw [applyOp_all]
    rfl
  · refine ⟨fun column => uop (own column) (incoming column), ?_, ?_⟩
    · intro lower
      exact absurd (Or.inl lower) first
    · simp only [if_neg first]
      rw [applyOp_all, Option.bind_some, localcopy_all]
      rfl

/-- In both functions, the own elements are combined with what has come from
lower ranks. -/
theorem scanTake_eq
    (partialScan : List Cell)
    (flag : Bool) :
    (shape.call check uop contents exclusive rank).scanTake
        { partialScan, tmpBuf := tabulate shape.count incoming
          recvbuf := tabulate shape.count own, flag } =
      some
        { partialScan, tmpBuf := tabulate shape.count incoming
          recvbuf := tabulate shape.count fun column =>
            uop (incoming column) (own column)
          flag } := by
  unfold Call.scanTake call
  rw [applyOp_all]
  rfl

end

section

variable {rank : Nat}

/-- A partner is lower if the bit of the round is set. -/
theorem partnerFirst_iff (round : Nat) :
    rank ^^^ 2 ^ round < rank ∨ shape.kind.isCommutative ↔ shape.PartnerFirst round rank := by
  rw [xor_mask_lt_iff]

theorem partialMsg_succ
    {round : Nat}
    (partner : rank ^^^ 2 ^ round < shape.commSize) :
    shape.partialMsg uop contents (round + 1) rank = tabulate shape.count fun column =>
        if rank ^^^ 2 ^ round < rank ∨ shape.kind.isCommutative then
          uop (shape.partialAt uop contents round (rank ^^^ 2 ^ round) column)
            (shape.partialAt uop contents round rank column)
        else uop (shape.partialAt uop contents round rank column)
          (shape.partialAt uop contents round (rank ^^^ 2 ^ round) column) := by
  unfold partialMsg
  congr 1
  funext column
  simp only [partnerFirst_iff]
  exact if_pos partner

theorem partialMsg_succ_of_not
    {round : Nat}
    (missing : ¬ rank ^^^ 2 ^ round < shape.commSize) :
    shape.partialMsg uop contents (round + 1) rank = shape.partialMsg uop contents round rank := by
  unfold partialMsg
  congr 1
  funext column
  exact if_neg missing

theorem ops_exchange
    {round : Nat}
    (inComm : rank < shape.commSize)
    (partner : rank ^^^ 2 ^ round < shape.commSize) :
    (shape.exchange uop contents rank round).ops =
      [.send (rank ^^^ 2 ^ round) (shape.partialMsg uop contents round rank),
        .recv (rank ^^^ 2 ^ round) (shape.partialMsg uop contents round (rank ^^^ 2 ^ round))] :=
  ops_exchangeRound ⟨inComm, partner⟩

theorem ops_exchange_of_not
    {round : Nat}
    (missing : ¬ rank ^^^ 2 ^ round < shape.commSize) :
    (shape.exchange uop contents rank round).ops = [] := by
  unfold exchange
  rw [exchangeRound_of_not fun has => missing has.2]
  rfl

variable (shape uop contents) in
/-- The buffers after some rounds, if the receive buffer then holds this. -/
structure After
    (holds : Nat → List Cell → Bool → Prop)
    (rank round : Nat)
    (buffers : Buffers Cell) : Prop where
  partialScan : buffers.partialScan = shape.partialMsg uop contents round rank
  tmpBuf : ∃ tmp, buffers.tmpBuf = tabulate shape.count tmp
  recvbuf : holds round buffers.recvbuf buffers.flag

/-- A loop whose receive buffer is kept up to date by each exchange. -/
theorem yields_doublingLoop
    {exclusive : Bool} {take : Buffers Cell → Option (Buffers Cell)}
    {holds : Nat → List Cell → Bool → Prop}
    (inComm : rank < shape.commSize)
    (takes : ∀ round, BitSet rank round → ∀ buffers,
      buffers.tmpBuf = shape.partialMsg uop contents round (rank ^^^ 2 ^ round) →
      holds round buffers.recvbuf buffers.flag →
      ∃ recvbuf flag, take buffers = some { buffers with recvbuf, flag } ∧
        holds (round + 1) recvbuf flag)
    (keeps : ∀ round recvbuf flag, ¬ BitSet rank round →
      holds round recvbuf flag → holds (round + 1) recvbuf flag)
    {round : Nat}
    (fuel : Nat)
    (within : round ≤ shape.levels)
    (enough : shape.levels ≤ round + fuel)
    {buffers : Buffers Cell}
    (start : shape.After uop contents holds rank round buffers) :
    ((shape.call check uop contents exclusive rank).doublingLoop take fuel
        (2 ^ round) buffers).Yields
      (opsOf (shape.exchange uop contents rank) (range' round (shape.levels - round)))
      (shape.After uop contents holds rank shape.levels) := by
  have size : (shape.call check uop contents exclusive rank).commSize = shape.commSize := rfl
  have own : (shape.call check uop contents exclusive rank).rank = rank := rfl
  have inRounds : ∀ round, 2 ^ round < shape.commSize ↔ round < shape.levels := by
    intro round
    exact (Nat.lt_clog_iff_pow_lt one_lt_two).symm
  induction fuel generalizing round buffers with
  | zero =>
    obtain rfl : round = shape.levels := by omega
    rw [Call.doublingLoop, size, if_neg fun more => lt_irrefl _ ((inRounds _).mp more),
      Nat.sub_self]
    exact Prog.yields_pure start
  | succ fuel ih =>
    rw [Call.doublingLoop, size, own]
    by_cases more : round < shape.levels
    · rw [if_pos ((inRounds _).mpr more), two_pow_shiftLeft,
        show shape.levels - round = shape.levels - (round + 1) + 1 by omega,
        range'_succ, opsOf_cons]
      obtain ⟨partialScan, tmpBuf, recvbuf, flag⟩ := buffers
      obtain ⟨rfl, ⟨tmp, rfl⟩, held⟩ := start
      by_cases partner : rank ^^^ 2 ^ round < shape.commSize
      · obtain ⟨next, same, combined⟩ := @combinePartial_eq Cell shape check uop
          contents rank (rank ^^^ 2 ^ round)
          (shape.partialAt uop contents round rank)
          (shape.partialAt uop contents round (rank ^^^ 2 ^ round)) exclusive
          recvbuf flag
        rw [← partialMsg_succ partner] at combined
        rw [if_pos partner, ops_exchange inComm partner]
        refine (ends_sendrecv recvbuf flag).bind_yields ?_
        rw [Call.absorb, combined, Option.bind_some, own]
        by_cases set : BitSet rank round
        · have lower := (xor_mask_lt_iff rank round).mpr set
          obtain rfl := same lower
          obtain ⟨recvbuf, flag, taken, held⟩ := takes round set
            ⟨shape.partialMsg uop contents (round + 1) rank, tabulate shape.count
                (shape.partialAt uop contents round (rank ^^^ 2 ^ round)), recvbuf, flag⟩
            rfl held
          rw [if_pos lower, taken]
          exact ih more (by omega) ⟨rfl, ⟨_, rfl⟩, held⟩
        · rw [if_neg fun lower => set ((xor_mask_lt_iff rank round).mp lower)]
          exact ih more (by omega) ⟨rfl, ⟨next, rfl⟩, keeps round recvbuf flag set held⟩
      · have clear : ¬ BitSet rank round := by
          intro set
          exact partner (((xor_mask_lt_iff rank round).mpr set).trans inComm)
        rw [if_neg partner, ops_exchange_of_not partner, nil_append]
        exact ih more (by omega)
          ⟨(partialMsg_succ_of_not partner).symm, ⟨tmp, rfl⟩, keeps round recvbuf flag clear held⟩
    · obtain rfl : round = shape.levels := by omega
      rw [if_neg fun more => lt_irrefl _ ((inRounds _).mp more), Nat.sub_self]
      exact Prog.yields_pure start

variable (shape uop contents) in
/-- What the receive buffer of `MPIR_Scan` holds. -/
def HoldsInclusive (rank round : Nat) (recvbuf : List Cell) (_ : Bool) : Prop :=
  recvbuf = tabulate shape.count (shape.inclusiveAt uop contents round rank)

variable (shape uop contents) in
/-- What the receive buffer of `MPIR_Exscan` holds: what it held before, until
something has come from a lower rank. -/
def HoldsExclusive (rank round : Nat) (recvbuf : List Cell) (flag : Bool) : Prop :=
  if flag then
    ∃ value, recvbuf = tabulate shape.count value ∧
      ∀ column, shape.exclusiveAt uop contents round rank column = some (value column)
  else
    recvbuf = tabulate shape.count (contents.output rank) ∧
      ∀ column, shape.exclusiveAt uop contents round rank column = none

theorem holdsInclusive_succ
    {exclusive : Bool}
    (inComm : rank < shape.commSize)
    {round : Nat}
    (set : BitSet rank round)
    {buffers : Buffers Cell}
    (incoming : buffers.tmpBuf = shape.partialMsg uop contents round (rank ^^^ 2 ^ round))
    (held : shape.HoldsInclusive uop contents rank round buffers.recvbuf buffers.flag) :
    ∃ recvbuf flag, (shape.call check uop contents exclusive rank).scanTake buffers =
        some { buffers with recvbuf, flag } ∧
      shape.HoldsInclusive uop contents rank (round + 1) recvbuf flag := by
  obtain ⟨partialScan, tmpBuf, recvbuf, flag⟩ := buffers
  obtain rfl : tmpBuf = _ := incoming
  obtain rfl : recvbuf = _ := held
  refine ⟨_, flag, scanTake_eq _ _, ?_⟩
  congr 1
  funext column
  exact (if_pos ((TruncatedButterfly.lower_partner_iff inComm).mpr set)).symm

section

variable
    (inComm : rank < shape.commSize)
    {round : Nat}

include inComm

theorem holdsInclusive_keeps
    {recvbuf : List Cell} {flag : Bool}
    (clear : ¬ BitSet rank round)
    (held : shape.HoldsInclusive uop contents rank round recvbuf flag) :
    shape.HoldsInclusive uop contents rank (round + 1) recvbuf flag := by
  rw [held]
  congr 1
  funext column
  apply (if_neg _).symm
  rw [TruncatedButterfly.lower_partner_iff inComm]
  exact clear

theorem exclusiveAt_succ
    (set : BitSet rank round)
    (column : Nat) :
    shape.exclusiveAt uop contents (round + 1) rank column =
      match shape.exclusiveAt uop contents round rank column with
      | none => some (shape.partialAt uop contents round (rank ^^^ 2 ^ round) column)
      | some value =>
        some (uop (shape.partialAt uop contents round (rank ^^^ 2 ^ round) column) value) :=
  if_pos ((TruncatedButterfly.lower_partner_iff inComm).mpr set)

/-- The first elements from a lower rank are copied, and later ones are
combined. -/
theorem holdsExclusive_succ
    (set : BitSet rank round)
    {buffers : Buffers Cell}
    (incoming : buffers.tmpBuf = shape.partialMsg uop contents round (rank ^^^ 2 ^ round))
    (held : shape.HoldsExclusive uop contents rank round buffers.recvbuf buffers.flag) :
    ∃ recvbuf flag, (shape.call check uop contents true rank).exscanTake buffers =
        some { buffers with recvbuf, flag } ∧
      shape.HoldsExclusive uop contents rank (round + 1) recvbuf flag := by
  obtain ⟨partialScan, tmpBuf, recvbuf, flag⟩ := buffers
  obtain rfl : tmpBuf = _ := incoming
  have notFirst : (shape.call check uop contents true rank).rank ≠ 0 := by
    have atLeast := mask_le_of_bitSet set
    have positive := Nat.two_pow_pos round
    change rank ≠ 0
    omega
  unfold Call.exscanTake
  rw [if_pos notFirst]
  cases flag with
  | false =>
    obtain ⟨same, nothing⟩ := held
    obtain rfl : recvbuf = _ := same
    refine ⟨shape.partialMsg uop contents round (rank ^^^ 2 ^ round), true, ?_, ?_⟩
    · unfold partialMsg call
      rw [localcopy_all]
      rfl
    · refine ⟨shape.partialAt uop contents round (rank ^^^ 2 ^ round), rfl, ?_⟩
      intro column
      rw [exclusiveAt_succ inComm set, nothing]
  | true =>
    obtain ⟨value, same, values⟩ := held
    obtain rfl : recvbuf = _ := same
    refine ⟨_, true, scanTake_eq _ _, _, rfl, ?_⟩
    intro column
    rw [exclusiveAt_succ inComm set, values]

theorem holdsExclusive_keeps
    {recvbuf : List Cell} {flag : Bool}
    (clear : ¬ BitSet rank round)
    (held : shape.HoldsExclusive uop contents rank round recvbuf flag) :
    shape.HoldsExclusive uop contents rank (round + 1) recvbuf flag := by
  have same : ∀ column, shape.exclusiveAt uop contents (round + 1) rank column =
      shape.exclusiveAt uop contents round rank column := by
    intro column
    apply if_neg
    rw [TruncatedButterfly.lower_partner_iff inComm]
    exact clear
  unfold HoldsExclusive at held ⊢
  simp only [same]
  exact held

end

end

section

variable {rank : Nat}

theorem startPartial_eq
    (exclusive : Bool)
    (recvbuf : List Cell) :
    (shape.call check uop contents exclusive rank).startPartial
        (tabulate shape.count (contents.input rank)) recvbuf =
      some
        { partialScan := shape.partialMsg uop contents 0 rank
          tmpBuf := tabulate shape.count (contents.tmpGarbage rank)
          recvbuf, flag := false } := by
  unfold Call.startPartial call
  rw [localcopy_all]
  rfl

theorem scanStart_eq :
    (shape.call check uop contents false rank).scanStart = some
        { partialScan := shape.partialMsg uop contents 0 rank
          tmpBuf := tabulate shape.count (contents.tmpGarbage rank)
          recvbuf := tabulate shape.count (contents.input rank)
          flag := false } := by
  have start := @startPartial_eq Cell shape check uop contents rank false
    (tabulate shape.count (contents.input rank))
  unfold Call.scanStart
  cases inPlace : shape.inPlace rank with
  | true =>
    have takes : (shape.call check uop contents false rank).inPlace = true := inPlace
    have own : (shape.call check uop contents false rank).recvbuf =
        tabulate shape.count (contents.input rank) := by
      simp only [call, inPlace, Bool.not_false, Bool.and_true, if_true]
    rw [if_pos takes, own, start]
  | false =>
    have copies : ¬ (shape.call check uop contents false rank).inPlace = true := by
      change ¬ shape.inPlace rank = true
      rw [inPlace]
      exact Bool.false_ne_true
    have copied : localcopy (shape.call check uop contents false rank).sendbuf 0
        (shape.call check uop contents false rank).recvbuf 0
        (shape.call check uop contents false rank).count =
          some (tabulate shape.count (contents.input rank)) :=
      localcopy_all _ _ _
    rw [if_neg copies, copied]
    exact start

theorem levels_le :
    shape.levels ≤ 0 + shape.commSize := by
  rw [zero_add]
  exact Nat.clog_le_of_le_pow Nat.lt_two_pow_self.le

/-- The rank's block is the whole communicator after the last round. -/
theorem blockStart_levels (inComm : rank < shape.commSize) :
    blockStart rank shape.levels = 0 := by
  apply blockStart_of_lt
  exact inComm.trans_le (Nat.le_pow_clog one_lt_two _)

theorem lowerFirst
    (notCommutative : ¬ shape.kind.isCommutative)
    (round rank : Nat) :
    shape.PartnerFirst round rank ↔ BitSet rank round :=
  or_iff_left notCommutative

/-- Orders that fit are allowed. -/
theorem allows_of
    {ranks : Nat} {order : List Nat}
    (perm : order.Perm (List.range ranks))
    (inOrder : (∀ round rank, shape.PartnerFirst round rank ↔ BitSet rank round) →
      order = List.range ranks) :
    shape.Allows ranks order := by
  unfold Allows
  by_cases commutes : shape.kind.isCommutative
  · rw [if_pos commutes]
    exact perm
  · rw [if_neg commutes]
    exact inOrder (lowerFirst commutes)

section

variable
    (associative : ∀ a b c, uop (uop a b) c = uop a (uop b c))
    (inComm : rank < shape.commSize)

include associative inComm

theorem holdsPrefix_inclusive :
    shape.HoldsPrefix uop contents (rank + 1)
      (tabulate shape.count (shape.inclusiveAt uop contents shape.levels rank)) := by
  refine ⟨length_tabulate _ _, ?_⟩
  intro column inside
  obtain ⟨order, perm, inOrder, product⟩ :=
    @TruncatedButterfly.product_inclusiveAt Cell uop shape.PartnerFirst _ shape.commSize
      (fun rank => contents.input rank column) associative rank inComm shape.levels
  rw [blockStart_levels inComm, Nat.sub_zero, ← range_eq_range'] at perm inOrder
  refine ⟨_, order, ?_, allows_of perm inOrder, product⟩
  rw [getElem?_tabulate, if_pos inside]
  rfl

theorem holdsPrefix_exclusive
    {value : Nat → Cell}
    (values : ∀ column,
      shape.exclusiveAt uop contents shape.levels rank column = some (value column)) :
    shape.HoldsPrefix uop contents rank (tabulate shape.count value) := by
  refine ⟨length_tabulate _ _, ?_⟩
  intro column inside
  obtain ⟨order, perm, inOrder, product⟩ :=
    @TruncatedButterfly.product_exclusiveAt Cell uop shape.PartnerFirst _ shape.commSize
      (fun rank => contents.input rank column) associative rank inComm shape.levels
  rw [blockStart_levels inComm, Nat.sub_zero, ← range_eq_range'] at perm inOrder
  refine ⟨value column, order, ?_, allows_of perm inOrder, ?_⟩
  · rw [getElem?_tabulate, if_pos inside]
  · exact product.trans (values column)

/-- From a lower rank, something comes in some round. -/
theorem exclusiveAt_ne_none
    (notFirst : 0 < rank)
    (column : Nat) :
    shape.exclusiveAt uop contents shape.levels rank column ≠ none := by
  intro nothing
  obtain ⟨order, perm, -, product⟩ :=
    @TruncatedButterfly.product_exclusiveAt Cell uop shape.PartnerFirst _ shape.commSize
      (fun rank => contents.input rank column) associative rank inComm shape.levels
  rw [blockStart_levels inComm, Nat.sub_zero] at perm
  rw [eq_nil_of_product (product.trans nothing)] at perm
  have length := perm.length_eq
  rw [length_range'] at length
  exact notFirst.ne length

end

theorem yields_scan (inComm : rank < shape.commSize) :
    (shape.scanProgram check uop contents rank).Yields
      (opsOf (shape.exchange uop contents rank)
        (List.range (if shape.count = 0 then 0 else shape.levels)))
      (fun recvbuf => recvbuf = tabulate shape.count
        (shape.inclusiveAt uop contents shape.levels rank)) := by
  rw [scanProgram, if_pos inComm, Call.scan]
  change (if shape.count = 0 then _ else _ : Prog _ _ _).Yields _ _
  by_cases empty : shape.count = 0
  · rw [if_pos empty, if_pos empty]
    apply Prog.yields_pure
    unfold call
    simp only [empty]
    rfl
  · rw [if_neg empty, if_neg empty, scanStart_eq]
    have loop := @yields_doublingLoop Cell shape check uop contents rank false
      (shape.call check uop contents false rank).scanTake
      (shape.HoldsInclusive uop contents rank) inComm
      (fun _ set _ incoming held => holdsInclusive_succ inComm set incoming held)
      (fun _ _ _ clear held => holdsInclusive_keeps inComm clear held)
      0 shape.commSize (Nat.zero_le _) levels_le
      ⟨shape.partialMsg uop contents 0 rank, tabulate shape.count (contents.tmpGarbage rank),
        tabulate shape.count (contents.input rank), false⟩
      ⟨rfl, ⟨_, rfl⟩, rfl⟩
    rw [Nat.sub_zero, ← range_eq_range'] at loop
    rw [← append_nil (opsOf _ _)]
    apply loop.bind
    intro buffers after
    exact Prog.yields_pure after.recvbuf

theorem yields_exscan (inComm : rank < shape.commSize) :
    (shape.exscanProgram check uop contents rank).Yields
      (opsOf (shape.exchange uop contents rank)
        (List.range (if shape.count = 0 then 0 else shape.levels)))
      (fun recvbuf => if shape.count = 0 then recvbuf = [] else
        ∃ flag, shape.HoldsExclusive uop contents rank shape.levels recvbuf flag) := by
  rw [exscanProgram, if_pos inComm, Call.exscan]
  change (if shape.count = 0 then _ else _ : Prog _ _ _).Yields _ _
  by_cases empty : shape.count = 0
  · simp only [if_pos empty]
    apply Prog.yields_pure
    unfold call
    simp only [empty]
    rfl
  · simp only [if_neg empty]
    have started : (shape.call check uop contents true rank).startPartial
        (shape.call check uop contents true rank).sendbuf
        (shape.call check uop contents true rank).recvbuf = _ :=
      @startPartial_eq Cell shape check uop contents rank true
        (shape.call check uop contents true rank).recvbuf
    have loop := @yields_doublingLoop Cell shape check uop contents rank true
      (shape.call check uop contents true rank).exscanTake
      (shape.HoldsExclusive uop contents rank) inComm
      (fun _ set _ incoming held => holdsExclusive_succ inComm set incoming held)
      (fun _ _ _ clear held => holdsExclusive_keeps inComm clear held)
      0 shape.commSize (Nat.zero_le _) levels_le
      ⟨shape.partialMsg uop contents 0 rank, tabulate shape.count (contents.tmpGarbage rank),
        (shape.call check uop contents true rank).recvbuf, false⟩
      ⟨rfl, ⟨_, rfl⟩, ⟨rfl, fun _ => rfl⟩⟩
    rw [Nat.sub_zero, ← range_eq_range'] at loop
    rw [started, ← append_nil (opsOf _ _)]
    apply loop.bind
    intro buffers after
    exact Prog.yields_pure ⟨buffers.flag, after.recvbuf⟩

variable (shape uop contents) in
/-- Outside the communicator nothing is exchanged. -/
theorem exchange_outside
    (beyond : ¬ rank < shape.commSize)
    (round : Nat) :
    shape.exchange uop contents rank round = .idle :=
  exchangeRound_of_not fun has => beyond has.1

end

end Shape

/-- All processes complete, with every exchange matched at both partners. For an
associative operation, the receive buffer of each rank holds after `MPIR_Scan`
the elements up to its own, and after `MPIR_Exscan` on each rank but the first
those before its own, combined in the order of the ranks unless the operation was
declared commutative. -/
theorem scan_exscan_correct
    (shape : Shape)
    (check : LengthCheck)
    (uop : Cell → Cell → Cell)
    (contents : Contents Cell) :
    (∃ out, Completes (shape.scanProgram check uop contents) out ∧
      ((∀ a b c, uop (uop a b) c = uop a (uop b c)) → ∀ rank < shape.commSize,
          shape.HoldsPrefix uop contents (rank + 1) (out rank))) ∧
    ∃ out, Completes (shape.exscanProgram check uop contents) out ∧
      ((∀ a b c, uop (uop a b) c = uop a (uop b c)) → ∀ rank < shape.commSize, 0 < rank →
          shape.HoldsPrefix uop contents rank (out rank)) := by
  constructor
  · obtain ⟨out, completes, results⟩ := exists_completes_of_members
      (shape.exchange uop contents) _ (Shape.exchange_agrees _)
      (fun _ beyond => shape.exchange_outside uop contents beyond)
      (fun _ beyond => if_neg beyond)
      (fun _ inComm => @Shape.yields_scan Cell shape check uop contents _ inComm)
    refine ⟨out, completes, ?_⟩
    intro associative rank inComm
    rw [results rank inComm]
    exact Shape.holdsPrefix_inclusive associative inComm
  · obtain ⟨out, completes, results⟩ := exists_completes_of_members
      (shape.exchange uop contents) _ (Shape.exchange_agrees _)
      (fun _ beyond => shape.exchange_outside uop contents beyond)
      (fun _ beyond => if_neg beyond)
      (fun _ inComm => @Shape.yields_exscan Cell shape check uop contents _ inComm)
    refine ⟨out, completes, ?_⟩
    intro associative rank inComm notFirst
    have result := results rank inComm
    by_cases empty : shape.count = 0
    · rw [if_pos empty] at result
      refine ⟨by rw [result, empty]; rfl, ?_⟩
      omega
    · rw [if_neg empty] at result
      obtain ⟨flag, held⟩ := result
      cases flag with
      | false =>
        exact absurd (held.2 0) (Shape.exclusiveAt_ne_none associative inComm notFirst 0)
      | true =>
        obtain ⟨value, same, values⟩ := held
        rw [same]
        exact Shape.holdsPrefix_exclusive associative inComm values

end Mpich.Coll.Scan
