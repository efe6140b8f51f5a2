import Mpich.Nemesis.HandlePkt.Defs

/-!
# Reassembly does not depend on the buffers

Between two calls the state of `MPID_nem_handle_pkt` stands for the progress of the
machine that takes one byte at a time. A call makes the run of that machine over its
buffer, so a stream may be cut anywhere.
-/

namespace Mpich.Nemesis.HandlePkt

open List

variable {Byte Req : Type*}

/-- The elements that are left lie inside the IOV, and the first is not empty. -/
structure Request.Valid
    (request : Request Byte Req) : Prop where
  inside : request.iovOffset + request.iovCount ≤ request.iov.length
  ready : request.ready = true

/-- Whole elements that are copied, and what is left of the IOV and the buffer. -/
theorem copyWhole_spec
    (entries : List Iov)
    (buf : List Byte) :
    ∃ passed copied, entries = passed ++ (Handlers.copyWhole entries buf).1 ∧
      buf = copied ++ (Handlers.copyWhole entries buf).2 ∧ copied.length = size passed ∧
      ∀ iov rest, (Handlers.copyWhole entries buf).1 = iov :: rest →
        (Handlers.copyWhole entries buf).2.length < iov.len := by
  induction entries generalizing buf with
  | nil => exact ⟨[], [], rfl, rfl, rfl, nofun⟩
  | cons first later ih =>
    unfold Handlers.copyWhole
    split
    case isTrue fits =>
      obtain ⟨passed, copied, isEntries, isBuf, isSize, short⟩ := ih (buf.drop first.len)
      refine ⟨first :: passed, buf.take first.len ++ copied, ?_, ?_, ?_, short⟩
      · rw [cons_append, ← isEntries]
      · rw [append_assoc, ← isBuf, take_append_drop]
      · rw [length_append, length_take, Nat.min_eq_left fits, isSize]
        rfl
    case isFalse tooLong =>
      refine ⟨[], [], rfl, rfl, rfl, ?_⟩
      intro iov rest isFirst
      obtain ⟨rfl, rfl⟩ := List.cons.inj isFirst
      exact Nat.lt_of_not_le tooLong

/-- The rest of the buffer goes into the first element that is left. -/
theorem stores_partial
    {iov : Iov} {rest : List Iov} {left : List Byte}
    (short : left.length < iov.len) :
    stores (iov :: rest) left = storesFrom iov.base left := by
  unfold stores
  rw [take_of_length_le (Nat.le_of_lt short),
    drop_of_length_le (Nat.le_of_lt short), Handlers.stores_nil, append_nil]

namespace Request

variable {request : Request Byte Req}

theorem Valid.length_entries (valid : request.Valid) :
    request.entries.length = request.iovCount := by
  have inside := valid.inside
  unfold entries
  rw [length_take, length_drop]
  omega

/-- The first element that is left is not empty. -/
theorem Valid.entries_eq (valid : request.Valid) :
    ∃ iov rest, request.entries = iov :: rest ∧ 0 < iov.len := by
  have ready := valid.ready
  unfold Request.ready at ready
  rw [Bool.and_eq_true, decide_eq_true_eq, Option.any_eq_true] at ready
  obtain ⟨positive, iov, isFirst, nonempty⟩ := ready
  refine ⟨iov, request.entries.tail, ?_, of_decide_eq_true nonempty⟩
  have head : request.entries.head? = some iov := by
    unfold entries
    rw [head?_take, if_neg (by omega), head?_drop]
    exact isFirst
  exact (cons_head?_tail head).symm

theorem load_valid
    (req : Req)
    (load : Load) :
    (Request.load req load 0 : Request Byte Req).Valid where
  inside := by
    exact Nat.le_of_eq (zero_add _)
  ready := by
    have positive := load.positive
    simp [Request.load, Request.ready, Load.iov, positive]

theorem load_entries
    (req : Req)
    (load : Load) :
    (Request.load req load 0 : Request Byte Req).entries = load.iov := by
  unfold entries Request.load
  rw [drop_zero, take_length]

/-- The element that takes the rest of the buffer becomes the first one. -/
theorem Valid.entries_set
    {passed rest : List Iov} {iov : Iov}
    (valid : request.Valid)
    (split : request.entries = passed ++ iov :: rest)
    (after : Iov) :
    let index := request.iovOffset + (request.iovCount - (iov :: rest).length)
    ((request.iov.set index after).drop index).take (iov :: rest).length = after :: rest ∧
      index + (iov :: rest).length ≤ (request.iov.set index after).length ∧
      (request.iov.set index after)[index]? = some after := by
  have counted := valid.length_entries
  have inside := valid.inside
  rw [split, length_append] at counted
  have isIndex : request.iovOffset + (request.iovCount - (iov :: rest).length) =
      request.iovOffset + passed.length := by omega
  have isRest : (request.iov.drop (request.iovOffset + passed.length + 1)).take
      rest.length = rest := by
    have dropped : request.entries.drop (passed.length + 1) = rest := by
      rw [split, ← drop_drop, drop_left]
      rfl
    unfold entries at dropped
    rw [drop_take, drop_drop] at dropped
    have isLength : request.iovCount - (passed.length + 1) = rest.length := by
      rw [length_cons] at counted
      omega
    rw [isLength, ← add_assoc] at dropped
    exact dropped
  rw [length_cons] at counted
  have within : request.iovOffset + passed.length < request.iov.length := by omega
  rw [isIndex]
  refine ⟨?_, ?_, ?_⟩
  · rw [drop_set, if_neg (Nat.lt_irrefl _), Nat.sub_self,
      drop_eq_getElem_cons within, set_cons_zero, length_cons, take_succ_cons, isRest]
  · rw [length_set, length_cons]
    omega
  · rw [getElem?_set_self within]

end Request

namespace Handlers

variable {handlers : Handlers Byte Req}

/-- Between two calls either a header is unfinished or a request is active. -/
def Valid
    (handlers : Handlers Byte Req)
    (state : State Byte Req) : Prop :=
  match state.recvActive with
  | none => state.pendingPkt.length < handlers.pktSize
  | some request => state.pendingPkt = [] ∧ request.Valid

/-- The progress that the state stands for. -/
def progress
    (handlers : Handlers Byte Req)
    (state : State Byte Req) : Progress Byte Req :=
  match state.recvActive with
  | none => ⟨state.log, .header state.pendingPkt⟩
  | some request =>
    handlers.fillFrom state.log request.req request.received request.entries

theorem copyLoop_nil
    (fuel : Nat)
    (log : List (Event Byte))
    (request : Request Byte Req) :
    handlers.copyLoop fuel log request [] = some (log, [], some request) := by
  cases fuel <;> rfl

/-- The loop over the IOV of a request: it ends with the buffer or the request. -/
theorem copyLoop_spec
    {fuel : Nat} {log : List (Event Byte)} {request : Request Byte Req}
    {buf : List Byte}
    (valid : request.Valid)
    (enough : buf.length ≤ fuel) :
    ∃ after left active, handlers.copyLoop fuel log request buf = some (after, left, active) ∧
        (left = [] ∨ active = none ∧ left.length < buf.length) ∧
        handlers.Valid ⟨active, [], after⟩ ∧ handlers.run
            (handlers.fillFrom log request.req request.received request.entries) buf =
          handlers.run (handlers.progress ⟨active, [], after⟩) left := by
  induction fuel generalizing log request buf with
  | zero =>
    obtain rfl := length_eq_zero_iff.mp (Nat.le_zero.mp enough)
    exact ⟨log, [], some request, rfl, .inl rfl, ⟨rfl, valid⟩, rfl⟩
  | succ fuel ih =>
    cases buf with
    | nil => exact ⟨log, [], some request, rfl, .inl rfl, ⟨rfl, valid⟩, rfl⟩
    | cons byte later =>
      obtain ⟨passed, copied, isEntries, isBuf, isSize, short⟩ :=
        copyWhole_spec request.entries (byte :: later)
      obtain ⟨first, others, isFirst, positive⟩ := valid.entries_eq
      unfold copyLoop
      dsimp only
      generalize copyWhole request.entries (byte :: later) = whole
        at isEntries isBuf short ⊢
      obtain ⟨entries, left⟩ := whole
      dsimp only at isEntries isBuf short ⊢
      have isCopied :
          (byte :: later).take ((byte :: later).length - left.length) = copied := by
        rw [isBuf, length_append, Nat.add_sub_cancel, take_left]
      rw [isCopied]
      cases entries with
      | cons iov rest =>
        have less := short iov rest rfl
        obtain ⟨isNew, inside, isFirstNew⟩ :=
          valid.entries_set isEntries ⟨iov.base + left.length, iov.len - left.length⟩
        refine ⟨_, _, _, copyLoop_nil .., .inl rfl, ⟨rfl, inside, ?_⟩, ?_⟩
        · unfold Request.ready
          rw [isFirstNew, Bool.and_eq_true, decide_eq_true_eq, Option.any_some, decide_eq_true_eq]
          exact ⟨Nat.succ_pos _, Nat.sub_pos_of_lt less⟩
        · have stored : stores request.entries (byte :: later) =
              stores passed copied ++ storesFrom iov.base left := by
            rw [isBuf, isEntries, stores_append isSize, stores_partial less]
          rw [stored]
          conv_lhs =>
            rw [isBuf, isEntries, run_append, run_entries (iov :: rest) isSize,
              run_element (Nat.le_of_lt less), append_assoc, append_assoc, ← isBuf]
          rw [← isNew]
          rfl
      | nil =>
        rw [append_nil] at isEntries
        have fewer : left.length < (byte :: later).length := by
          have total : size passed = first.len + size others := by
            rw [← isEntries, isFirst]
            rfl
          rw [isBuf, length_append]
          omega
        have ran := @run_entries _ _ handlers log request.req request.received
          copied passed [] isSize
        rw [append_nil, ← isEntries, fillFrom_nil] at ran
        cases isNext : handlers.onDataAvail request.req (request.received ++ copied) with
        | none =>
          rw [isNext] at ran
          refine ⟨_, left, none, rfl, .inr ⟨rfl, fewer⟩, handlers.pktSize_pos, ?_⟩
          conv_lhs => rw [isBuf, run_append, ran]
          rfl
        | some next =>
          obtain ⟨req, load⟩ := next
          rw [isNext] at ran
          dsimp only at ran ⊢
          rw [← fillFrom_load _ req [] load, ← Request.load_entries req load] at ran
          obtain ⟨after, left', active, looped, ends, isValid, isRun⟩ :=
            @ih (log ++ stores request.entries copied)
              (Request.load req load 0) left (Request.load_valid req load)
              (by omega)
          refine ⟨after, left', active,
            (if_pos (Request.load_valid req load).ready).trans looped, ?_, isValid, ?_⟩
          · exact ends.imp_right fun ⟨inactive, less⟩ =>
              ⟨inactive, Nat.lt_trans less fewer⟩
          · conv_lhs => rw [isBuf, run_append, ran]
            exact isRun

/-- The progress after a handler that returns this request. -/
def outcome
    (handlers : Handlers Byte Req)
    (log : List (Event Byte)) : Option (Req × Load) → Progress Byte Req
  | none => ⟨log, .header []⟩
  | some (req, load) => handlers.fillFrom log req [] load.iov

theorem fill_spec
    (log : List (Event Byte))
    (times : Nat)
    (req : Req)
    (load : Load)
    (buf : List Byte) :
    (handlers.fill times req load buf).2.1 ≤ buf.length ∧
      handlers.run (handlers.fillFrom log req [] load.iov)
          (buf.take (handlers.fill times req load buf).2.1) =
        handlers.outcome (log ++ (handlers.fill times req load buf).1)
          (handlers.fill times req load buf).2.2 := by
  induction times generalizing log req load buf with
  | zero =>
    refine ⟨Nat.zero_le _, ?_⟩
    unfold fill
    rw [append_nil]
    rfl
  | succ times ih =>
    unfold fill
    dsimp only
    split
    case isFalse =>
      refine ⟨Nat.zero_le _, ?_⟩
      rw [append_nil]
      rfl
    case isTrue fits =>
      have isTake : (buf.take (size load.iov)).length = size load.iov := by
        rw [length_take, Nat.min_eq_left fits]
      have ran := @run_entries _ _ handlers log req [] _ load.iov [] isTake
      rw [append_nil, nil_append, fillFrom_nil] at ran
      cases isNext : handlers.onDataAvail req (buf.take (size load.iov)) with
      | none =>
        rw [isNext] at ran
        exact ⟨fits, ran⟩
      | some next =>
        obtain ⟨later, reloaded⟩ := next
        rw [isNext] at ran
        dsimp only at ran ⊢
        rw [← fillFrom_load _ later [] reloaded] at ran
        obtain ⟨inside, isRun⟩ := ih
          (log ++ stores load.iov (buf.take (size load.iov))) later reloaded
          (buf.drop (size load.iov))
        rw [length_drop] at inside
        refine ⟨by omega, ?_⟩
        rw [take_add, run_append, ran, isRun, append_assoc]

/-- What a handler does at once is what the machine does with these bytes. -/
theorem handler_spec
    (log : List (Event Byte))
    (packet buf : List Byte) :
    handlers.pktSize ≤ (handlers.handler packet buf).2.1 ∧
      (handlers.handler packet buf).2.1 - handlers.pktSize ≤ buf.length ∧
      handlers.run (handlers.startPacket log packet)
          (buf.take ((handlers.handler packet buf).2.1 - handlers.pktSize)) =
        handlers.outcome (log ++ (handlers.handler packet buf).1)
          (handlers.handler packet buf).2.2 := by
  unfold handler startPacket
  cases handlers.dispatch packet with
  | none =>
    rw [Nat.sub_self]
    exact ⟨Nat.le_refl _, Nat.zero_le _, rfl⟩
  | some result =>
    obtain ⟨req, load⟩ := result
    obtain ⟨inside, isRun⟩ := @fill_spec _ _ handlers (log ++ [.header packet])
      (handlers.ahead packet buf) req load buf
    rw [Nat.add_sub_cancel_left]
    refine ⟨Nat.le_add_right _ _, inside, isRun.trans ?_⟩
    rw [append_assoc]
    rfl

/-- The loop over whole messages ends, and makes the run over what it uses. -/
theorem fastPath_spec
    {fuel : Nat} {log : List (Event Byte)} {buf : List Byte}
    (whole : handlers.pktSize ≤ buf.length)
    (enough : buf.length ≤ fuel) :
    ∃ after left rreq, handlers.fastPath fuel log buf = some (after, left, rreq) ∧
      left.length < buf.length ∧ handlers.run ⟨log, .header []⟩ buf =
        handlers.run (handlers.outcome after rreq) left := by
  have positive := handlers.pktSize_pos
  induction fuel generalizing log buf with
  | zero => omega
  | succ fuel ih =>
    obtain ⟨lower, upper, ran⟩ := @handler_spec _ _ handlers log
      (buf.take handlers.pktSize) (buf.drop handlers.pktSize)
    unfold fastPath
    generalize handlers.handler (buf.take handlers.pktSize)
      (buf.drop handlers.pktSize) = result at lower upper ran ⊢
    obtain ⟨events, len, rreq⟩ := result
    dsimp only at lower upper ran ⊢
    have isHeader : (buf.take handlers.pktSize).length = handlers.pktSize := by
      rw [length_take, Nat.min_eq_left whole]
    have nonempty : buf.take handlers.pktSize ≠ [] := by
      apply ne_nil_of_length_pos
      rw [isHeader]
      exact positive
    have used : handlers.run ⟨log, .header []⟩ buf =
        handlers.run (handlers.outcome (log ++ events) rreq) (buf.drop len) := by
      have isBuf : buf = buf.take handlers.pktSize ++
          ((buf.drop handlers.pktSize).take (len - handlers.pktSize) ++ buf.drop len) := by
        conv_lhs => rw [← take_append_drop handlers.pktSize buf,
          ← take_append_drop (len - handlers.pktSize) (buf.drop handlers.pktSize),
          drop_drop, Nat.add_sub_of_le lower]
      conv_lhs => rw [isBuf]
      have headed := @run_header _ _ handlers log [] _ nonempty ((zero_add _).trans isHeader)
      rw [run_append, run_append, headed, nil_append, ran]
    split
    case isTrue more =>
      obtain ⟨after, left, later, isFast, fewer, isRun⟩ :=
        @ih (log ++ events) (buf.drop len) more.2 (by
          rw [length_drop]
          omega)
      rw [length_drop] at fewer
      refine ⟨after, left, later, isFast, by omega, ?_⟩
      rw [used, Option.isNone_iff_eq_none.mp more.1]
      exact isRun
    case isFalse =>
      refine ⟨_, _, _, rfl, ?_, used⟩
      rw [length_drop]
      omega

/-- What one round of the loop does with a buffer. -/
structure Handled
    (handlers : Handlers Byte Req)
    (before : Progress Byte Req)
    (buf : List Byte)
    (after : State Byte Req)
    (left : List Byte) : Prop where
  ends : left = [] ∨ left.length < buf.length
  valid : handlers.Valid after
  run : handlers.run before buf = handlers.run (handlers.progress after) left

variable {state : State Byte Req}

theorem copyData_spec
    {request : Request Byte Req}
    (valid : request.Valid)
    (empty : state.pendingPkt = [])
    (buf : List Byte) :
    ∃ after left, handlers.copyData state request buf = some (after, left) ∧ handlers.Handled
        (handlers.fillFrom state.log request.req request.received request.entries) buf
        after left := by
  unfold copyData
  rw [if_pos valid.ready]
  split
  case isTrue isEmpty =>
    subst isEmpty
    exact ⟨_, _, rfl, .inl rfl, ⟨empty, valid⟩, rfl⟩
  case isFalse nonempty =>
    obtain ⟨log, left, active, looped, ends, isValid, isRun⟩ :=
      @copyLoop_spec _ _ handlers buf.length state.log request buf valid (Nat.le_refl _)
    rw [looped]
    refine ⟨_, left, rfl, ends.imp_right And.right, ?_, ?_⟩
    · rw [empty]
      exact isValid
    · rw [empty]
      exact isRun

/-- A handler that returns no request leaves the state between two packets, and one
that returns a request leaves it with the data. -/
theorem copyData_outcome
    {buf : List Byte}
    (req : Req)
    (load : Load)
    (empty : state.pendingPkt = []) :
    ∃ after left, handlers.copyData state { Request.load req load 0 with iovOffset := 0 } buf =
        some (after, left) ∧
      handlers.Handled (handlers.outcome state.log (some (req, load))) buf after left := by
  obtain ⟨after, left, copied, handled⟩ :=
    @copyData_spec _ _ handlers state _ (Request.load_valid req load) empty buf
  rw [Request.load_entries] at handled
  exact ⟨after, left, copied, handled⟩

/-- A round that begins with some bytes and goes on with the others. -/
theorem Handled.of_prefix
    {before middle : Progress Byte Req} {first second : List Byte}
    {after : State Byte Req} {left : List Byte}
    (ran : handlers.run before first = middle)
    (nonempty : first ≠ [])
    (handled : handlers.Handled middle second after left) :
    handlers.Handled before (first ++ second) after left where
  ends := by
    apply handled.ends.imp_right
    rw [length_append]
    omega
  valid := handled.valid
  run := by
    rw [run_append, ran]
    exact handled.run

/-- A packet without a request leaves the rest of the buffer to the next round. -/
theorem Handled.of_none
    (left : List Byte)
    (inactive : state.recvActive = none)
    (empty : state.pendingPkt = []) :
    handlers.run (handlers.outcome state.log none) left =
        handlers.run (handlers.progress state) left ∧
      handlers.Valid state := by
  unfold progress Handlers.Valid
  rw [inactive, empty]
  exact ⟨rfl, handlers.pktSize_pos⟩

theorem collect_spec
    {buf : List Byte}
    (inactive : state.recvActive = none)
    (short : state.pendingPkt.length < handlers.pktSize) :
    ∃ after left, handlers.collect state buf = some (after, left) ∧
      handlers.Handled ⟨state.log, .header state.pendingPkt⟩ buf after left := by
  unfold collect
  dsimp only
  by_cases fits : state.pendingPkt.length + buf.length < handlers.pktSize
  · rw [if_pos (Nat.le_of_lt fits), take_length, if_pos (by
      rw [length_append]
      exact fits)]
    refine ⟨_, _, rfl, .inl rfl, ?_, ?_⟩
    · unfold Handlers.Valid
      rw [inactive]
      rw [length_append]
      exact fits
    · rw [run_fragment fits, run_nil]
      unfold progress
      rw [inactive]
  · -- the header is complete
    obtain ⟨copylen, isCopylen⟩ : ∃ copylen,
        (if state.pendingPkt.length + buf.length ≤ handlers.pktSize then buf.length
          else handlers.pktSize - state.pendingPkt.length) = copylen ∧
        copylen ≤ buf.length ∧ state.pendingPkt.length + copylen = handlers.pktSize := by
      refine ⟨_, rfl, ?_⟩
      split <;> omega
    obtain ⟨chosen, within, whole⟩ := isCopylen
    have taken : (buf.take copylen).length = copylen := by
      rw [length_take, Nat.min_eq_left within]
    have nonempty : buf.take copylen ≠ [] := by
      apply ne_nil_of_length_pos
      omega
    rw [chosen, if_neg (by
      rw [length_append, taken]
      omega)]
    obtain ⟨lower, upper, ran⟩ := @handler_spec _ _ handlers state.log
      (state.pendingPkt ++ buf.take copylen) []
    have headed := @run_header _ _ handlers state.log state.pendingPkt _ nonempty
      ((congrArg (_ + ·) taken).trans whole)
    generalize handlers.handler (state.pendingPkt ++ buf.take copylen) [] = result
      at lower upper ran ⊢
    obtain ⟨events, len, rreq⟩ := result
    dsimp only at lower upper ran ⊢
    rw [take_nil, run_nil, ← headed] at ran
    rw [length_nil] at upper
    rw [if_pos (by omega)]
    have isBuf := (take_append_drop copylen buf).symm
    cases rreq with
    | none =>
      obtain ⟨isRun, isValid⟩ := @Handled.of_none _ _ handlers
        ⟨state.recvActive, [], state.log ++ events⟩ (buf.drop copylen) inactive rfl
      refine ⟨_, _, rfl, .inr ?_, isValid, ?_⟩
      · rw [length_drop]
        omega
      · conv_lhs => rw [isBuf, run_append, ran]
        exact isRun
    | some next =>
      obtain ⟨req, load⟩ := next
      obtain ⟨after, left, copied, handled⟩ := @copyData_outcome _ _ handlers
        ⟨state.recvActive, [], state.log ++ events⟩ (buf.drop copylen) req load rfl
      refine ⟨after, left, copied, ?_⟩
      rw [isBuf]
      exact handled.of_prefix ran nonempty

theorem handleOnce_spec
    (valid : handlers.Valid state)
    (buf : List Byte) :
    ∃ after left, handlers.handleOnce state buf = some (after, left) ∧
      handlers.Handled (handlers.progress state) buf after left := by
  unfold handleOnce
  unfold Handlers.Valid at valid
  cases isActive : state.recvActive with
  | some request =>
    rw [isActive] at valid
    obtain ⟨empty, isValid⟩ := valid
    dsimp only
    rw [if_pos empty]
    unfold progress
    rw [isActive]
    exact copyData_spec isValid empty buf
  | none =>
    rw [isActive] at valid
    have isProgress : handlers.progress state = ⟨state.log, .header state.pendingPkt⟩ := by
      unfold progress
      rw [isActive]
    rw [isProgress]
    split
    case isFalse => exact collect_spec isActive valid
    case isTrue fast =>
      obtain ⟨-, empty, whole⟩ := fast
      obtain ⟨log, left, rreq, isFast, fewer, isRun⟩ :=
        @fastPath_spec _ _ handlers buf.length state.log buf whole (Nat.le_refl _)
      rw [isFast, empty]
      cases rreq with
      | none =>
        obtain ⟨same, isValid⟩ := @Handled.of_none _ _ handlers ⟨none, [], log⟩ left rfl rfl
        exact ⟨_, _, rfl, .inr fewer, isValid, isRun.trans same⟩
      | some next =>
        obtain ⟨req, load⟩ := next
        obtain ⟨after, later, copied, handled⟩ := @copyData_outcome _ _ handlers
          ⟨none, [], log⟩ left req load rfl
        refine ⟨after, later, copied, ?_, handled.valid, isRun.trans handled.run⟩
        exact handled.ends.imp_right fun less => Nat.lt_trans less fewer

theorem handleLoop_spec
    {fuel : Nat} {buf : List Byte}
    (valid : handlers.Valid state)
    (enough : buf.length < fuel) :
    ∃ after, handlers.handleLoop fuel state buf = some after ∧ handlers.Valid after ∧
      handlers.progress after = handlers.run (handlers.progress state) buf := by
  induction fuel generalizing state buf with
  | zero => exact absurd enough (Nat.not_lt_zero _)
  | succ fuel ih =>
    obtain ⟨next, left, once, handled⟩ := handleOnce_spec valid buf
    have ends := handled.ends
    have isRun := handled.run
    unfold handleLoop
    rw [once]
    cases left with
    | nil => exact ⟨next, rfl, handled.valid, isRun.symm⟩
    | cons byte rest =>
      have fewer := ends.resolve_left (cons_ne_nil byte rest)
      obtain ⟨after, looped, isValid, isProgress⟩ :=
        @ih next (byte :: rest) handled.valid (by omega)
      exact ⟨after, looped, isValid, isProgress.trans isRun.symm⟩

/-- A call makes the run of the machine over its buffer, and no assertion fails. -/
theorem handlePkt_spec
    (valid : handlers.Valid state)
    (buf : List Byte) :
    ∃ after, handlers.handlePkt state buf = some after ∧ handlers.Valid after ∧
      handlers.progress after = handlers.run (handlers.progress state) buf :=
  handleLoop_spec valid (Nat.lt_succ_self _)

theorem handleAll_spec
    (valid : handlers.Valid state)
    (buffers : List (List Byte)) :
    ∃ after, handlers.handleAll state buffers = some after ∧ handlers.Valid after ∧
      handlers.progress after = handlers.run (handlers.progress state) buffers.flatten := by
  induction buffers generalizing state with
  | nil => exact ⟨state, rfl, valid, rfl⟩
  | cons buf rest ih =>
    obtain ⟨next, once, nextValid, nextProgress⟩ := handlePkt_spec valid buf
    obtain ⟨after, handled, isValid, isProgress⟩ := ih nextValid
    refine ⟨after, ?_, isValid, ?_⟩
    · unfold handleAll
      rw [foldlM_cons, once]
      exact handled
    · rw [isProgress, nextProgress, flatten_cons, run_append]

/-- A connection on which nothing has arrived. -/
def start : State Byte Req where
  recvActive := none
  pendingPkt := []
  log := []

/-- `recv_active` and `pending_pkt` hold the request or the header that is
unfinished, and the log what the machine has done. -/
def Describes
    (state : State Byte Req)
    (reached : Progress Byte Req) : Prop :=
  state.log = reached.log ∧ match reached.mode with
    | .header packet => state.recvActive = none ∧ state.pendingPkt = packet
    | .data req received iov rest =>
      state.pendingPkt = [] ∧ ∃ request, state.recvActive = some request ∧ request.req = req ∧
          request.received = received ∧ request.entries = iov :: rest

theorem describes_progress (valid : handlers.Valid state) :
    Describes state (handlers.progress state) := by
  unfold Handlers.Valid at valid
  unfold progress
  cases isActive : state.recvActive with
  | none => exact ⟨rfl, isActive, rfl⟩
  | some request =>
    rw [isActive] at valid
    obtain ⟨iov, rest, isEntries, positive⟩ := valid.2.entries_eq
    have isData : handlers.fillFrom state.log request.req request.received
        request.entries = ⟨state.log, .data request.req request.received iov rest⟩ := by
      rw [isEntries, fillFrom, if_neg (Nat.ne_of_gt positive)]
    dsimp only
    rw [isData]
    exact ⟨rfl, valid.1, request, isActive, rfl, rfl, isEntries⟩

end Mpich.Nemesis.HandlePkt.Handlers
