import Mpich.Romio.Independent.Defs

/-!
# The order of the accesses

Whatever its requests are, a call makes its accesses in one of three orders. A
sieving window is locked, read, changed inside its bounds, written back and
unlocked. A packed window is filled from its first byte to its last and then
written. Everything else is a write of user data. `Follows` says so, and the
calls of the model follow it and write the pieces they have to.
-/

namespace Mpich.Romio.Independent

open List

/-- Where a process is between two accesses. -/
inductive Mode
  | idle
  /-- The window is locked and not yet read. -/
  | locked (window : Window)
  /-- The window is read and being changed. -/
  | sieving (window : Window)
  /-- The window is written back and still locked. -/
  | written (window : Window)
  /-- The first `filled` bytes of the window at `off` are packed. -/
  | packing (off filled : Nat)

/-- The accesses come in an order that starts in the mode. -/
inductive Follows : Mode → List Op → Prop
  | done : Follows .idle []
  | malloc {rest : List Op} :
      Follows .idle rest → Follows .idle (.malloc :: rest)
  | fill {off : Nat} {rest : List Op} :
      Follows (.packing off 0) rest → Follows .idle (.malloc :: rest)
  | memset {rest : List Op} :
      Follows .idle rest → Follows .idle (.memset :: rest)
  | direct {off : Nat} {data : List Byte} {rest : List Op} :
      Follows .idle rest → Follows .idle (.writeContig off data :: rest)
  | lock {window : Window} {rest : List Op} :
      Follows (.locked window) rest → Follows .idle (.writeLock window :: rest)
  | read {window : Window} {rest : List Op} :
      Follows (.sieving window) rest →
      Follows (.locked window) (.readContig window :: rest)
  | modify {window : Window} {reqOff : Nat} {data : List Byte}
      {rest : List Op} :
      window.off ≤ reqOff →
      reqOff + data.length ≤ window.off + window.len → Follows (.sieving window) rest →
      Follows (.sieving window) (.memcpy window.off reqOff data :: rest)
  | writeBack {window : Window} {rest : List Op} :
      Follows (.written window) rest →
      Follows (.sieving window) (.writeBuf window :: rest)
  | unlock {window : Window} {rest : List Op} :
      Follows .idle rest →
      Follows (.written window) (.unlock window :: rest)
  | pack {off filled : Nat} {data : List Byte} {rest : List Op} :
      Follows (.packing off (filled + data.length)) rest →
      Follows (.packing off filled) (.memcpy off (off + filled) data :: rest)
  | flush {off filled next : Nat} {rest : List Op} :
      Follows (.packing next 0) rest →
      Follows (.packing off filled) (.writeBuf ⟨off, filled⟩ :: rest)
  | flushLast {off filled : Nat} {rest : List Op} :
      Follows .idle rest →
      Follows (.packing off filled) (.writeBuf ⟨off, filled⟩ :: rest)

/-- The accesses lead from one mode to another. -/
def Leads
    (start : Mode)
    (ops : List Op)
    (finish : Mode) : Prop :=
  ∀ rest, Follows finish rest → Follows start (ops ++ rest)

theorem Leads.nil
    (mode : Mode) : Leads mode [] mode :=
  fun _ follows => follows

theorem Leads.append
    {start middle finish : Mode} {first second : List Op}
    (one : Leads start first middle)
    (two : Leads middle second finish) :
    Leads start (first ++ second) finish := by
  intro rest follows
  rw [append_assoc]
  exact one _ (two _ follows)

theorem Leads.cons
    {start middle finish : Mode} {op : Op} {ops : List Op}
    (one : Leads start [op] middle)
    (two : Leads middle ops finish) :
    Leads start (op :: ops) finish :=
  Leads.append one two

/-- The pieces of user data among the accesses. -/
def piecesOf : List Op → List (Piece Byte)
  | [] => []
  | .memcpy _ reqOff data :: rest => (reqOff, data) :: piecesOf rest
  | .writeContig off data :: rest => (off, data) :: piecesOf rest
  | _ :: rest => piecesOf rest

theorem piecesOf_append (first second : List Op) :
    piecesOf (first ++ second) = piecesOf first ++ piecesOf second := by
  induction first with
  | nil => rfl
  | cons op rest ih => cases op <;> simp [piecesOf, ih]

/-- A buffering macro, with the mode it is in when it has filled a window up to
a place of the file. -/
structure Disciplined
    (buffering : Buffering)
    (mode : Window → Nat → Mode) : Prop where
  /-- A copy to the place moves it on. -/
  copy : ∀ (window : Window) (place : Nat) (data : List Byte),
    window.off ≤ place → place + data.length ≤ window.off + window.len →
    Leads (mode window place) [.memcpy window.off place data] (mode window (place + data.length))
  /-- A window that is full is finished before the next one. -/
  next : ∀ window following : Window, following.off = window.off + window.len →
    Leads (mode window (window.off + window.len))
      (buffering.finish window ++ buffering.fresh following)
      (mode following following.off)
  /-- The accesses around a window bring no user data. -/
  finishPieces : ∀ window, piecesOf (buffering.finish window) = []
  flushPieces : ∀ window, piecesOf (buffering.flush window) = []
  freshPieces : ∀ window, piecesOf (buffering.fresh window) = []

/-- The window after a part of a request that ends at the place: the window
before, or a new one. -/
structure Covers
    (maxBufsize pastEnd : Nat)
    (before after : Window)
    (place : Nat) : Prop where
  above : after.off ≤ place
  below : place ≤ after.off + after.len
  origin : after = before ∨ after = newWindow maxBufsize pastEnd after.off

/-- Two parts of a request write what the request writes. -/
theorem valueAt_parts
    (start count : Nat)
    (data : List Byte) :
    Pieces.valueAt [(start, data.take count), (start + count, data.drop count)] =
      Pieces.valueAt [(start, data)] := by
  funext place
  exact Pieces.pieceAt_split start count data place

theorem valueAt_noData (start : Nat) :
    Pieces.valueAt [((start, []) : Piece Byte)] = Pieces.valueAt [] := by
  funext place
  rw [Pieces.valueAt_cons, Pieces.pieceAt_nil, Option.or_none]

variable {maxBufsize : Nat}

variable (positive : 0 < maxBufsize)

include positive in
/-- A new window in front of the last byte is not empty. -/
theorem newWindow_len_pos
    {pastEnd off : Nat}
    (before : off < pastEnd) :
    0 < (newWindow maxBufsize pastEnd off).len := by
  simp only [newWindow]
  omega

section

variable
  {buffering : Buffering}
  {mode : Window → Nat → Mode}
  {maxBufsize pastEnd : Nat}

section

variable (disciplined : Disciplined buffering mode)

include disciplined

/-- The loop ends, and it writes what is left of the request behind the full
window it starts with. -/
theorem bufferedRest_spec
    (positive : 0 < maxBufsize)
    (fuel : Nat)
    (window : Window)
    (data : List Byte)
    (place : Nat)
    (enough : data.length ≤ fuel)
    (fits : place + data.length ≤ pastEnd)
    (full : data ≠ [] → place = window.off + window.len)
    (above : window.off < place)
    (below : place ≤ window.off + window.len) :
    ∃ ops last, bufferedRest buffering maxBufsize pastEnd fuel window data = some (ops, last) ∧
        Leads (mode window place) ops (mode last (place + data.length)) ∧
        Covers maxBufsize pastEnd window last (place + data.length) ∧
        last.off < place + data.length ∧
        Pieces.valueAt (piecesOf ops) = Pieces.valueAt [(place, data)] := by
  induction fuel generalizing window data place with
  | zero =>
    obtain rfl : data = [] := length_eq_zero_iff.1 (by omega)
    refine ⟨[], window, ?_, Leads.nil _, ⟨?_, below, .inl rfl⟩, above, ?_⟩
    · rw [bufferedRest]
    · exact le_of_lt above
    · exact (valueAt_noData place).symm
  | succ fuel ih =>
    cases data with
    | nil =>
      refine ⟨[], window, ?_, Leads.nil _, ⟨?_, below, .inl rfl⟩, above, ?_⟩
      · rw [bufferedRest]
      · exact le_of_lt above
      · exact (valueAt_noData place).symm
    | cons byte more =>
      have isFull : place = window.off + window.len := full (cons_ne_nil _ _)
      simp only [bufferedRest]
      generalize isData : byte :: more = data at *
      have someData : 0 < data.length := by
        rw [← isData]
        exact Nat.succ_pos _
      generalize isNext :
        newWindow maxBufsize pastEnd (window.off + window.len) = next
      have nextOff : next.off = place := by
        rw [← isNext, isFull, newWindow]
      have nextLen : next.len = min maxBufsize (pastEnd - place) := by
        rw [← isNext, isFull, newWindow]
      have lengths : (data.take (min data.length next.len)).length = min data.length next.len := by
        rw [length_take]
        omega
      have rests : (data.drop (min data.length next.len)).length =
          data.length - min data.length next.len := length_drop
      obtain ⟨ops, last, runs, leads, covers, below, values⟩ :=
        ih next (data.drop (min data.length next.len))
          (next.off + min data.length next.len)
          (by omega) (by omega)
          (fun left => by
            have := length_pos_iff.2 left
            omega)
          (by omega) (by omega)
      have ends :
          next.off + min data.length next.len + (data.drop (min data.length next.len)).length =
            place + data.length := by
        omega
      rw [ends] at leads covers below
      refine ⟨_, last, by rw [runs], ?_, ⟨covers.above, covers.below, ?_⟩, below, ?_⟩
      · apply Leads.append
        · rw [isFull]
          exact disciplined.next window next (by omega)
        · apply Leads.cons _ leads
          have copies := disciplined.copy next next.off
            (data.take (min data.length next.len)) (le_refl _) (by omega)
          rwa [lengths] at copies
      · rcases covers.origin with same | new
        · refine .inr ?_
          rw [same, ← isNext]
          rfl
        · exact .inr new
      · rw [piecesOf_append, piecesOf_append, disciplined.finishPieces, disciplined.freshPieces]
        calc
          Pieces.valueAt ([] ++ [] ++ piecesOf (.memcpy next.off next.off
              (data.take (min data.length next.len)) :: ops)) =
              Pieces.valueAt
                ([(next.off, data.take (min data.length next.len))] ++ piecesOf ops) := rfl
          _ = Pieces.valueAt
                ([(next.off, data.take (min data.length next.len))] ++
                  [(next.off + min data.length next.len, data.drop (min data.length next.len))]) :=
            Pieces.valueAt_append_congr rfl values
          _ = Pieces.valueAt [(place, data)] := by
            rw [← nextOff]
            exact valueAt_parts _ _ _

/-- The accesses of the first `if` lead to the window the request is copied
to. -/
def Opens
    (buffering : Buffering)
    (mode : Window → Nat → Mode)
    (maxBufsize pastEnd : Nat)
    (start : Mode)
    (window : Window)
    (reqOff : Nat) : Prop :=
  if window.off + window.len ≤ reqOff then
    Leads start
      (buffering.flush window ++ buffering.fresh (newWindow maxBufsize pastEnd reqOff))
      (mode (newWindow maxBufsize pastEnd reqOff) reqOff)
  else start = mode window reqOff

/-- A request is copied to an open window, and the loop does the rest. -/
theorem copy_spec
    (positive : 0 < maxBufsize)
    (window : Window)
    (reqOff : Nat)
    (data : List Byte)
    (fits : reqOff + data.length ≤ pastEnd)
    (above : window.off ≤ reqOff)
    (below : reqOff ≤ window.off + window.len)
    (room : data ≠ [] → reqOff < window.off + window.len) :
    ∃ ops last, bufferedRest buffering maxBufsize pastEnd data.length window
          (data.drop (min data.length (window.off + window.len - reqOff))) =
          some (ops, last) ∧
        Leads (mode window reqOff)
          (.memcpy window.off reqOff
            (data.take (min data.length (window.off + window.len - reqOff))) :: ops)
          (mode last (reqOff + data.length)) ∧
        Covers maxBufsize pastEnd window last (reqOff + data.length) ∧
        (data ≠ [] → last.off < reqOff + data.length) ∧ Pieces.valueAt
            ((reqOff, data.take
              (min data.length (window.off + window.len - reqOff))) ::
                piecesOf ops) =
          Pieces.valueAt [(reqOff, data)] := by
  generalize isSize :
    min data.length (window.off + window.len - reqOff) = writeSz
  have takes : (data.take writeSz).length = writeSz := by
    rw [length_take]
    omega
  have drops : (data.drop writeSz).length = data.length - writeSz := length_drop
  have copies := disciplined.copy window reqOff (data.take writeSz) above (by omega)
  rw [takes] at copies
  cases data with
  | nil =>
    have none : writeSz = 0 := by
      rw [← isSize]
      exact Nat.zero_min _
    subst none
    exact ⟨[], window, rfl, copies, ⟨above, below, .inl rfl⟩, fun some => absurd rfl some, rfl⟩
  | cons byte more =>
    have room := room (cons_ne_nil _ _)
    generalize isData : byte :: more = data at *
    have someData : 0 < data.length := by
      rw [← isData]
      exact Nat.succ_pos _
    obtain ⟨ops, last, runs, leads, covers, short, values⟩ :=
      bufferedRest_spec disciplined positive data.length window
        (data.drop writeSz) (reqOff + writeSz) (by omega)
        (show _ ≤ pastEnd by omega)
        (fun left => by
          have := length_pos_iff.2 left
          omega)
        (by omega) (by omega)
    have ends : reqOff + writeSz + (data.drop writeSz).length = reqOff + data.length := by
      omega
    rw [ends] at leads covers short
    refine ⟨ops, last, runs, Leads.cons copies leads, covers, fun _ => short, ?_⟩
    calc
      Pieces.valueAt ((reqOff, data.take writeSz) :: piecesOf ops) =
          Pieces.valueAt ([(reqOff, data.take writeSz)] ++
            [(reqOff + writeSz, data.drop writeSz)]) := by
        rw [← singleton_append]
        exact Pieces.valueAt_append_congr rfl values
      _ = Pieces.valueAt [(reqOff, data)] := valueAt_parts _ _ _

/-- One use of a macro ends and writes its request. -/
theorem bufferedWrite_spec
    (positive : 0 < maxBufsize)
    (start : Mode)
    (window : Window)
    (request : Piece Byte)
    (fits : request.1 + request.2.length ≤ pastEnd)
    (above : window.off ≤ request.1)
    (opens : Opens buffering mode maxBufsize pastEnd start window request.1) :
    ∃ ops last, bufferedWrite buffering maxBufsize pastEnd request window = some (ops, last) ∧
        Leads start ops (mode last (request.1 + request.2.length)) ∧
        Covers maxBufsize pastEnd window last (request.1 + request.2.length) ∧
        (request.2 ≠ [] → last.off < request.1 + request.2.length) ∧
        Pieces.valueAt (piecesOf ops) = Pieces.valueAt [request] := by
  obtain ⟨reqOff, data⟩ := request
  simp only at fits above opens ⊢
  simp only [bufferedWrite, Opens] at opens ⊢
  split at opens
  case isTrue needed =>
    have room : data ≠ [] → 0 < (newWindow maxBufsize pastEnd reqOff).len := by
      intro some
      have := length_pos_iff.2 some
      exact newWindow_len_pos positive (by omega)
    rw [if_pos needed, if_pos needed]
    generalize isNext : newWindow maxBufsize pastEnd reqOff = next at *
    have nextOff : next.off = reqOff := by
      rw [← isNext, newWindow]
    obtain ⟨ops, last, runs, leads, covers, short, values⟩ :=
      copy_spec disciplined positive next reqOff data fits (by omega) (by omega)
        (fun some => by have := room some; omega)
    refine ⟨_, last, by rw [runs], Leads.append opens leads,
      ⟨covers.above, covers.below, ?_⟩, short, ?_⟩
    · rcases covers.origin with same | new
      · refine .inr ?_
        rw [same, nextOff, isNext]
      · exact .inr new
    · rw [piecesOf_append, piecesOf_append, disciplined.flushPieces, disciplined.freshPieces]
      exact values
  case isFalse inside =>
    rw [if_neg inside, if_neg inside]
    obtain ⟨ops, last, runs, leads, covers, short, values⟩ :=
      copy_spec disciplined positive window reqOff data fits above (by omega) (fun _ => by omega)
    rw [← opens] at leads
    refine ⟨_, last, ?_, leads, covers, short, values⟩
    rw [runs]
    rfl

end

end

/-- The mode of a sieving window that may be the empty one at the start. -/
def sievingMode (window : Window) : Mode :=
  if window.len = 0 then .idle else .sieving window

theorem disciplined_readModifyWrite :
    Disciplined readModifyWrite fun window _ => .sieving window where
  copy := fun window place data above below _ follows =>
    .modify above below follows
  next := fun window following _ _ follows =>
    .writeBack (.unlock (.lock (.read follows)))
  finishPieces := fun _ => rfl
  flushPieces := fun window => by
    simp only [readModifyWrite]
    split
    case isTrue some => rfl
    case isFalse none => rfl
  freshPieces := fun _ => rfl

/-- The window a request needs is locked and read once the one before it is
written back. -/
theorem opens_readModifyWrite
    (maxBufsize pastEnd : Nat)
    (window : Window)
    (reqOff : Nat)
    (above : window.off ≤ reqOff) :
    Opens readModifyWrite (fun window _ => .sieving window) maxBufsize pastEnd
      (sievingMode window) window reqOff := by
  simp only [Opens, sievingMode, readModifyWrite]
  split
  case isTrue needed =>
    by_cases empty : window.len = 0
    · rw [if_pos empty, if_neg (not_not_intro empty)]
      exact fun _ follows => .lock (.read follows)
    · rw [if_neg empty, if_pos empty]
      exact fun _ follows => .writeBack (.unlock (.lock (.read follows)))
  case isFalse inside => rw [if_neg (by omega)]

include positive in
/-- Ordered requests are all written, and the last window is still open. -/
theorem bufferedAll_readModifyWrite
    {pastEnd : Nat}
    (requests : List (Piece Byte))
    (nonempty : ∀ request ∈ requests, request.2 ≠ [])
    (ordered : requests.Pairwise fun first second =>
      first.1 + first.2.length ≤ second.1)
    (fits : ∀ request ∈ requests, request.1 + request.2.length ≤ pastEnd)
    (window : Window)
    (above : ∀ request ∈ requests, window.off ≤ request.1) :
    ∃ ops last, bufferedAll readModifyWrite maxBufsize pastEnd requests window = some (ops, last) ∧
        Leads (sievingMode window) ops (sievingMode last) ∧
        Pieces.valueAt (piecesOf ops) = Pieces.valueAt requests := by
  induction requests generalizing window with
  | nil => exact ⟨[], window, rfl, Leads.nil _, rfl⟩
  | cons request rest ih =>
    obtain ⟨ops, next, runs, leads, covers, short, values⟩ :=
      bufferedWrite_spec disciplined_readModifyWrite positive
        (sievingMode window) window request (fits _ mem_cons_self)
        (above _ mem_cons_self)
        (opens_readModifyWrite _ _ _ _ (above _ mem_cons_self))
    have short := short (nonempty _ mem_cons_self)
    have nextMode : sievingMode next = .sieving next := by
      have below := covers.below
      rw [sievingMode, if_neg (by omega)]
    rw [pairwise_cons] at ordered
    obtain ⟨more, last, runsRest, leadsRest, valuesRest⟩ :=
      ih
        (fun other member => nonempty _ (mem_cons_of_mem _ member))
        ordered.2
        (fun other member => fits _ (mem_cons_of_mem _ member))
        next
        (fun other member => by
          have := ordered.1 other member
          omega)
    refine ⟨ops ++ more, last, ?_, ?_, ?_⟩
    · simp only [bufferedAll, runs, runsRest]
    · rw [nextMode] at leadsRest
      exact Leads.append leads leadsRest
    · rw [piecesOf_append]
      exact Pieces.valueAt_append_congr values valuesRest

/-- Ordered requests end in front of the last byte accessed. -/
theorem le_pastEnd
    (requests : Requests)
    (request : Piece Byte)
    (member : request ∈ requests.list) :
    request.1 + request.2.length ≤ requests.pastEnd := by
  have ordered := requests.ordered
  simp only [Requests.pastEnd]
  rcases eq_nil_or_concat requests.list with none | ⟨front, last, isConcat⟩
  · rw [none] at member
    exact absurd member not_mem_nil
  · have isList := isConcat.trans (concat_eq_append)
    rw [isList, getLast?_concat]
    rw [isList, pairwise_append] at ordered
    rw [isList, mem_append, mem_singleton] at member
    rcases member with inFront | isLast
    · have := ordered.2.2 request inFront last mem_cons_self
      show request.1 + request.2.length ≤ last.1 + last.2.length
      omega
    · rw [isLast]

include positive in
/-- A strided write follows the order of sieving windows. -/
theorem stridedOps_spec
    (requests : Requests) :
    ∃ ops, stridedOps maxBufsize requests = some ops ∧ Leads .idle ops .idle ∧
      Pieces.valueAt (piecesOf ops) = Pieces.valueAt requests.list := by
  obtain ⟨ops, last, runs, leads, values⟩ :=
    bufferedAll_readModifyWrite positive requests.list requests.nonempty
      requests.ordered (le_pastEnd requests) ⟨0, 0⟩ fun _ _ => Nat.zero_le _
  have flushed : Leads (sievingMode last) (readModifyWrite.flush last) .idle := by
    simp only [sievingMode, readModifyWrite]
    split
    case isTrue empty =>
      rw [if_neg (not_not_intro empty)]
      exact Leads.nil _
    case isFalse some => exact fun _ follows => .writeBack (.unlock follows)
  refine ⟨.malloc :: .memset :: ops ++ readModifyWrite.flush last, ?_, ?_, ?_⟩
  · simp only [stridedOps, runs]
  · intro rest follows
    apply Follows.malloc
    apply Follows.memset
    exact Leads.append leads flushed rest follows
  · rw [piecesOf_append, disciplined_readModifyWrite.flushPieces, append_nil]
    exact values

/-- The mode of a packed window filled up to the place. -/
def packingMode
    (window : Window)
    (place : Nat) : Mode :=
  .packing window.off (place - window.off)

theorem disciplined_withoutRead : Disciplined withoutRead packingMode where
  copy := by
    intro window place data above _ rest follows
    have position : window.off + (place - window.off) = place := by omega
    have filled : place + data.length - window.off = place - window.off + data.length := by
      omega
    simp only [packingMode, filled] at follows ⊢
    have packed := Follows.pack follows
    rwa [position] at packed
  next := by
    intro window following _ rest follows
    simp only [packingMode, Nat.sub_self, Nat.add_sub_cancel_left] at follows ⊢
    exact .flush follows
  finishPieces := fun _ => rfl
  flushPieces := fun _ => rfl
  freshPieces := fun _ => rfl

/-- A window is written when it is full; a request that fits is packed. -/
theorem opens_withoutRead
    (maxBufsize pastEnd : Nat)
    (window : Window)
    (reqOff : Nat)
    (below : reqOff ≤ window.off + window.len) :
    Opens withoutRead packingMode maxBufsize pastEnd (packingMode window reqOff) window reqOff := by
  simp only [Opens]
  split
  case isTrue full =>
    have isFull : reqOff = window.off + window.len := by omega
    subst isFull
    exact disciplined_withoutRead.next window _ rfl
  case isFalse inside => trivial

include positive in
/-- Blocks that follow one another are all written, and what remains in the
buffer is the last window up to the end of the blocks. -/
theorem bufferedAll_withoutRead
    {pastEnd : Nat}
    (blocks : List (List Byte))
    (off : Nat)
    (fits : off + blocks.flatten.length ≤ pastEnd)
    (window : Window)
    (isNew : window = newWindow maxBufsize pastEnd window.off)
    (above : window.off ≤ off)
    (below : off ≤ window.off + window.len) :
    ∃ ops last, bufferedAll withoutRead maxBufsize pastEnd (consecutive off blocks)
          window = some (ops, last) ∧
        Leads (packingMode window off) ops (packingMode last (off + blocks.flatten.length)) ∧
        last = newWindow maxBufsize pastEnd last.off ∧ last.off ≤ off + blocks.flatten.length ∧
        off + blocks.flatten.length ≤ last.off + last.len ∧
        Pieces.valueAt (piecesOf ops) = Pieces.valueAt (consecutive off blocks) := by
  induction blocks generalizing window off with
  | nil => exact ⟨[], window, rfl, Leads.nil _, isNew, above, below, rfl⟩
  | cons block rest ih =>
    simp only [flatten_cons, length_append] at fits ⊢
    obtain ⟨ops, next, runs, leads, covers, _, values⟩ :=
      bufferedWrite_spec disciplined_withoutRead positive
        (packingMode window off) window (off, block)
        (show off + block.length ≤ pastEnd by omega) above
        (opens_withoutRead _ _ _ _ below)
    have nextIsNew : next = newWindow maxBufsize pastEnd next.off := by
      rcases covers.origin with same | new
      · rw [same, ← isNew]
      · exact new
    obtain ⟨more, last, runsRest, leadsRest, isNewLast, aboveLast, belowLast, valuesRest⟩ :=
      ih (off + block.length) (by omega) next nextIsNew covers.above covers.below
    rw [add_assoc] at leadsRest aboveLast belowLast
    refine ⟨ops ++ more, last, ?_, Leads.append leads leadsRest, isNewLast,
      aboveLast, belowLast, ?_⟩
    · simp only [consecutive, bufferedAll, runs, runsRest]
    · rw [piecesOf_append, consecutive, ← singleton_append]
      exact Pieces.valueAt_append_congr values valuesRest

include positive in
/-- A packed write follows the order of packed windows. -/
theorem packedOps_spec
    (off : Nat)
    (blocks : List (List Byte)) :
    ∃ ops, packedOps maxBufsize off blocks = some ops ∧ Leads .idle ops .idle ∧
      Pieces.valueAt (piecesOf ops) = Pieces.valueAt (consecutive off blocks) := by
  generalize isEnd : off + blocks.flatten.length = pastEnd
  obtain ⟨ops, last, runs, leads, isNew, above, below, values⟩ :=
    bufferedAll_withoutRead positive blocks off (le_of_eq isEnd)
      (newWindow maxBufsize pastEnd off) rfl (le_refl _) (by exact Nat.le_add_right _ _)
  have full : pastEnd - last.off = last.len := by
    have lengths := congrArg Window.len isNew
    simp only [newWindow] at lengths
    omega
  have flushed : Leads (packingMode last pastEnd) [.writeBuf last] .idle := by
    intro rest follows
    rw [packingMode, full]
    exact .flushLast follows
  refine ⟨.malloc :: ops ++ [.writeBuf last], ?_, ?_, ?_⟩
  · simp only [packedOps, isEnd, runs]
  · intro rest follows
    refine @Follows.fill off _ ?_
    rw [isEnd] at leads
    have packs := Leads.append leads flushed rest follows
    rw [packingMode] at packs
    rwa [show off - (newWindow maxBufsize pastEnd off).off = 0 from
      Nat.sub_self off] at packs
  · rw [piecesOf_append]
    exact (congrArg Pieces.valueAt (append_nil _)).trans values

/-- Writes of user data may be made at any time. -/
theorem naiveOps_spec (requests : List (Piece Byte)) :
    Leads .idle (naiveOps requests) .idle ∧ piecesOf (naiveOps requests) = requests := by
  induction requests with
  | nil => exact ⟨Leads.nil _, rfl⟩
  | cons request rest ih =>
    obtain ⟨leads, pieces⟩ := ih
    refine ⟨fun more follows => .direct (leads more follows), ?_⟩
    rw [naiveOps, map_cons, piecesOf, ← naiveOps, pieces]

include positive in
/-- A call ends, keeps to the order and writes its pieces. -/
theorem ops_spec
    (call : WriteCall) :
    ∃ ops, call.ops maxBufsize = some ops ∧ Leads .idle ops .idle ∧
      Pieces.valueAt (piecesOf ops) = Pieces.valueAt call.pieces := by
  cases call with
  | contig off data => exact ⟨_, rfl, fun _ follows => .direct follows, rfl⟩
  | strided requests => exact stridedOps_spec positive requests
  | packed off blocks => exact packedOps_spec positive off blocks
  | naive requests =>
    obtain ⟨leads, pieces⟩ := naiveOps_spec requests
    exact ⟨_, rfl, leads, congrArg Pieces.valueAt pieces⟩

include positive in
/-- The calls of a process end, keep to the order and write their pieces. -/
theorem program_spec
    (calls : List WriteCall) :
    ∃ ops, program maxBufsize calls = some ops ∧ Follows .idle ops ∧
      Pieces.valueAt (piecesOf ops) = written calls := by
  induction calls with
  | nil => exact ⟨[], rfl, .done, rfl⟩
  | cons call rest ih =>
    obtain ⟨ops, runs, leads, values⟩ := ops_spec positive call
    obtain ⟨more, runsRest, follows, valuesRest⟩ := ih
    refine ⟨ops ++ more, ?_, leads more follows, ?_⟩
    · simp only [program, runs, runsRest]
    · rw [piecesOf_append, written, flatMap_cons]
      exact Pieces.valueAt_append_congr values valuesRest

end Mpich.Romio.Independent
