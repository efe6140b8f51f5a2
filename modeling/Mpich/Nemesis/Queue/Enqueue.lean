import Mpich.Nemesis.Queue.Invariant

/-!
# The steps of the enqueuers keep the invariant
-/

namespace Mpich.Nemesis.Queue

open List Function

variable {Process Cell : Type*} [DecidableEq Process]
  {state : State Process Cell} {cells : List Cell}

variable {process : Process} {element : Cell}

/-- A process that starts to enqueue a cell makes no link yet. -/
theorem linking_of_update
    (idle : state.enqueuer process = .idle)
    (other : Process)
    (prev : Option Cell)
    (later : Cell) :
    update state.enqueuer process (.swapping element) other = .linking prev later ↔
      state.enqueuer other = .linking prev later := by
  rw [update_apply]
  split
  case isTrue same =>
    subst same
    rw [idle]
    exact iff_of_false nofun nofun
  case isFalse => exact Iff.rfl

theorem Consistent.enqueue
    (consistent : Consistent state cells)
    (idle : state.enqueuer process = .idle)
    (clean : state.next element = none)
    (outside : element ∉ state.queue)
    (alone : ∀ other, state.enqueuer other ≠ .swapping element) :
    Consistent { state with
      enqueuer := update state.enqueuer process (.swapping element) }
        cells := by
  have linking := @linking_of_update _ _ _ state process element idle
  rw [consistent.queue] at outside
  constructor
  case joined =>
    have joined := consistent.joined
    constructor
    case nodup => exact joined.nodup
    case tail => exact joined.tail
    case last => exact joined.last
    case joined => simpa only [linking] using joined.joined
    case linking => simpa only [linking] using joined.linking
    case once => simpa only [linking] using joined.once
  case stage =>
    have noFirst (before : NoFirst state) : NoFirst { state with
        enqueuer := update state.enqueuer process (.swapping element) } := by
      intro other later
      rw [ne_eq, linking]
      exact before other later
    refine consistent.stage.mono rfl rfl ?_ ?_ ?_ (fun _ _ => rfl) (fun _ _ notLast => notLast)
    · intro anchored
      cases anchored with
      | mine isMyHead noHead before => exact .mine isMyHead noHead (noFirst before)
      | shared noMyHead isHead before => exact .shared noMyHead isHead (noFirst before)
      | coming linker first noMyHead noHead isFirst links only =>
        refine .coming linker first noMyHead noHead isFirst ?_ ?_
        · rw [linking]
          exact links
        · intro other later
          rw [linking]
          exact only other later
    · exact fun arrived => ⟨⟨arrived.1, noFirst arrived.2⟩, rfl, rfl⟩
    · exact fun _ held => ⟨held.first, held.head, noFirst held.noFirst⟩
  case swapped => exact consistent.swapped
  case gone => exact consistent.gone
  case swapping =>
    intro other later isSwapping
    simp only [update_apply] at isSwapping
    split at isSwapping
    case isTrue =>
      obtain rfl := Enqueuer.swapping.inj isSwapping
      exact ⟨clean, outside⟩
    case isFalse => exact consistent.swapping other later isSwapping
  case unique =>
    intro first second later isFirst isSecond
    simp only [update_apply] at isFirst isSecond
    split at isFirst <;> split at isSecond
    case isTrue.isTrue firstSame secondSame => exact firstSame.trans secondSame.symm
    case isTrue.isFalse =>
      obtain rfl := Enqueuer.swapping.inj isFirst
      exact absurd isSecond (alone second)
    case isFalse.isTrue =>
      obtain rfl := Enqueuer.swapping.inj isSecond
      exact absurd isFirst (alone first)
    case isFalse.isFalse => exact consistent.unique first second later isFirst isSecond
  case clean => exact consistent.clean

theorem Consistent.swap
    (consistent : Consistent state cells)
    (isSwapping : state.enqueuer process = .swapping element) :
    Consistent { state with
      tail := some element
      enqueuer := update state.enqueuer process (.linking state.tail element)
      swapped := state.swapped ++ [element] } (cells ++ [element]) := by
  obtain ⟨clean, outside⟩ := consistent.swapping process element isSwapping
  have fresh : element ∉ cells := fun member => outside (mem_append_right _ member)
  have joined := consistent.joined
  -- the process had no link to make before
  have linking (other : Process) (prev : Option Cell) (later : Cell) :
      update state.enqueuer process (.linking state.tail element) other = .linking prev later ↔
        other = process ∧ prev = state.tail ∧ later = element ∨
          state.enqueuer other = .linking prev later := by
    rw [update_apply]
    split
    case isTrue same =>
      subst same
      rw [isSwapping, Enqueuer.linking.injEq]
      constructor
      · rintro ⟨rfl, rfl⟩
        exact .inl ⟨rfl, rfl, rfl⟩
      · rintro (⟨-, rfl, rfl⟩ | impossible)
        · exact ⟨rfl, rfl⟩
        · nomatch impossible
    case isFalse different =>
      exact ⟨.inr, fun either => either.resolve_left fun same => different same.1⟩
  have noFirst
      (nonempty : cells ≠ [])
      (before : NoFirst state) :
      NoFirst { state with
        tail := some element
        enqueuer := update state.enqueuer process (.linking state.tail element)
        swapped := state.swapped ++ [element] } := by
    intro other later links
    rcases (linking other none later).mp links with ⟨-, noTail, -⟩ | links
    · rw [joined.tail, eq_comm, getLast?_eq_none_iff] at noTail
      exact nonempty noTail
    · exact before other later links
  constructor
  case joined =>
    constructor
    case nodup =>
      rw [nodup_append_comm]
      exact nodup_cons.mpr ⟨fresh, joined.nodup⟩
    case tail => exact (getLast?_concat ..).symm
    case last =>
      intro last isLast
      obtain rfl := Option.some.inj ((getLast?_concat ..).symm.trans isLast)
      exact clean
    case joined =>
      intro prev second neighbours
      rcases neighbours_concat.mp neighbours with before | ⟨isLast, rfl⟩
      · apply (joined.joined prev second before).imp_right
        rintro ⟨linker, links⟩
        exact ⟨linker, (linking linker (some prev) second).mpr (.inr links)⟩
      · exact .inr ⟨process, (linking process (some prev) second).mpr
          (.inl ⟨rfl, isLast.symm.trans joined.tail.symm, rfl⟩)⟩
    case linking =>
      intro linker prev second links
      rw [neighbours_concat]
      rcases (linking linker (some prev) second).mp links with ⟨-, isTail, rfl⟩ | links
      · rw [joined.tail] at isTail
        exact ⟨joined.last prev isTail.symm, .inr ⟨isTail.symm, rfl⟩⟩
      · obtain ⟨isNone, neighbours⟩ := joined.linking linker prev second links
        exact ⟨isNone, .inl neighbours⟩
    case once =>
      intro first second prev later isFirst isSecond
      have known {linker : Process}
          (links : state.enqueuer linker = .linking (some prev) element) : False :=
        fresh (mem_of_neighbours (joined.linking linker prev element links).2).2
      rcases (linking first (some prev) later).mp isFirst with ⟨isProcess, -, same⟩ | oldFirst
      · rcases (linking second (some prev) later).mp isSecond with ⟨also, -, -⟩ | oldSecond
        · exact isProcess.trans also.symm
        · exact (known (same ▸ oldSecond)).elim
      · rcases (linking second (some prev) later).mp isSecond with ⟨-, -, same⟩ | oldSecond
        · exact (known (same ▸ oldFirst)).elim
        · exact joined.once first second prev later oldFirst oldSecond
  case stage =>
    have sameFirst (nonempty : cells ≠ []) :
        (cells ++ [element]).head? = cells.head? :=
      head?_append_of_ne_nil cells nonempty
    have isNonempty {first : Cell} (isFirst : cells.head? = some first) : cells ≠ [] := by
      rintro rfl
      exact absurd isFirst nofun
    refine consistent.stage.mono rfl rfl ?_ ?_ ?_ (fun _ _ => rfl) ?_
    · intro anchored
      by_cases empty : cells = []
      · subst empty
        obtain ⟨noMyHead, noHead, before⟩ := anchored.nil
        refine .coming process element noMyHead noHead rfl ?_ ?_
        · rw [linking, joined.tail]
          exact .inl ⟨rfl, rfl, rfl⟩
        · intro other later links
          rcases (linking other none later).mp links with ⟨same, -⟩ | links
          · exact same
          · exact absurd links (before other later)
      · cases anchored with
        | mine isMyHead noHead before =>
          exact .mine (isMyHead.trans (sameFirst empty).symm) noHead (noFirst empty before)
        | shared noMyHead isHead before =>
          exact .shared noMyHead (isHead.trans (sameFirst empty).symm) (noFirst empty before)
        | coming linker first noMyHead noHead isFirst links only =>
          refine .coming linker first noMyHead noHead
            ((sameFirst empty).trans isFirst) ?_ ?_
          · exact (linking linker none first).mpr (.inr links)
          · intro other later links
            rcases (linking other none later).mp links with ⟨-, noTail, -⟩ | links
            · rw [joined.tail, eq_comm, getLast?_eq_none_iff] at noTail
              exact absurd noTail empty
            · exact only other later links
    · rintro ⟨nonempty, before⟩
      exact ⟨⟨append_ne_nil_of_left_ne_nil nonempty _, noFirst nonempty before⟩,
        sameFirst nonempty, rfl⟩
    · rintro first ⟨isFirst, noHead, before⟩
      have nonempty := isNonempty isFirst
      exact ⟨(sameFirst nonempty).trans isFirst, noHead, noFirst nonempty before⟩
    · rintro first ⟨isFirst, -, -⟩ - isLast
      obtain rfl := Option.some.inj ((getLast?_concat ..).symm.trans isLast)
      exact fresh (mem_of_mem_head? isFirst)
  case swapped => simp only [consistent.swapped, append_assoc]
  case gone =>
    intro leaving member inside
    rcases mem_append.mp inside with before | same
    · exact consistent.gone leaving member before
    · obtain rfl := mem_singleton.mp same
      exact outside (mem_append_left _ member)
  case swapping =>
    intro other later isLater
    simp only [update_apply] at isLater
    split at isLater
    case isTrue => nomatch isLater
    case isFalse different =>
      obtain ⟨isNone, beyond⟩ := consistent.swapping other later isLater
      refine ⟨isNone, ?_⟩
      rw [← append_assoc, mem_append, not_or, mem_singleton]
      refine ⟨beyond, ?_⟩
      rintro rfl
      exact different (consistent.unique other process later isLater isSwapping)
  case unique =>
    intro first second later isFirst isSecond
    simp only [update_apply] at isFirst isSecond
    split at isFirst
    case isTrue => nomatch isFirst
    case isFalse =>
      split at isSecond
      case isTrue => nomatch isSecond
      case isFalse => exact consistent.unique first second later isFirst isSecond
  case clean =>
    intro later member beyond
    apply consistent.clean later member
    intro before
    apply beyond
    rw [← append_assoc]
    exact mem_append_left _ before

/-- A process that has made its link makes no other. -/
theorem linking_of_idle
    (other : Process)
    (prev : Option Cell)
    (later : Cell) :
    update state.enqueuer process .idle other = .linking prev later ↔
      other ≠ process ∧ state.enqueuer other = .linking prev later := by
  rw [update_apply]
  split
  case isTrue same => exact iff_of_false nofun fun other => other.1 same
  case isFalse different => exact (and_iff_right different).symm

theorem swapping_of_idle
    {process other : Process} {later : Cell}
    (isSwapping : update state.enqueuer process .idle other = .swapping later) :
    state.enqueuer other = .swapping later := by
  rw [update_apply] at isSwapping
  split at isSwapping
  case isTrue => nomatch isSwapping
  case isFalse => exact isSwapping

omit [DecidableEq Process] in
/-- While a cell is about to be put into `head`, the dequeuer knows nothing of
it. -/
theorem Anchored.of_linking
    (anchored : Anchored state cells)
    (isLinking : state.enqueuer process = .linking none element) :
    state.myHead = none ∧ cells.head? = some element ∧
      ∀ other later, state.enqueuer other = .linking none later → other = process := by
  cases anchored with
  | mine _ _ noFirst => exact absurd isLinking (noFirst process element)
  | shared _ _ noFirst => exact absurd isLinking (noFirst process element)
  | coming linker first noMyHead _ isFirst links only =>
    obtain rfl := only process element isLinking
    obtain ⟨-, rfl⟩ := Enqueuer.linking.inj (links.symm.trans isLinking)
    exact ⟨noMyHead, isFirst, only⟩

theorem Consistent.linkHead
    (consistent : Consistent state cells)
    (isLinking : state.enqueuer process = .linking none element) :
    Consistent { state with
      head := some element
      enqueuer := update state.enqueuer process .idle } cells := by
  have linking := @linking_of_idle _ _ _ state process
  have joined := consistent.joined
  have later {other : Process} {prev second : Cell}
      (links : state.enqueuer other = .linking (some prev) second) :
      other ≠ process := by
    rintro rfl
    nomatch isLinking.symm.trans links
  constructor
  case joined =>
    constructor
    case nodup => exact joined.nodup
    case tail => exact joined.tail
    case last => exact joined.last
    case joined =>
      intro prev second neighbours
      apply (joined.joined prev second neighbours).imp_right
      rintro ⟨linker, links⟩
      exact ⟨linker, (linking linker (some prev) second).mpr ⟨later links, links⟩⟩
    case linking =>
      intro linker prev second links
      exact joined.linking linker prev second ((linking linker (some prev) second).mp links).2
    case once =>
      intro first second prev element isFirst isSecond
      exact joined.once first second prev element
        ((linking first (some prev) element).mp isFirst).2
        ((linking second (some prev) element).mp isSecond).2
  case stage =>
    have impossible (noFirst : NoFirst state) : False := noFirst process element isLinking
    refine consistent.stage.mono rfl rfl ?_ ?_ ?_ (fun _ _ => rfl)
      (fun _ _ notLast => notLast)
    · intro anchored
      obtain ⟨noMyHead, isFirst, only⟩ := anchored.of_linking isLinking
      refine .shared noMyHead isFirst.symm ?_
      intro other second links
      obtain ⟨different, before⟩ := (linking other none second).mp links
      exact different (only other second before)
    · exact fun arrived => (impossible arrived.2).elim
    · exact fun _ held => (impossible held.noFirst).elim
  case swapped => exact consistent.swapped
  case gone => exact consistent.gone
  case swapping =>
    intro other second isSwapping
    exact consistent.swapping other second (swapping_of_idle isSwapping)
  case unique =>
    intro first second third isFirst isSecond
    exact consistent.unique first second third (swapping_of_idle isFirst)
      (swapping_of_idle isSecond)
  case clean => exact consistent.clean

section

variable [DecidableEq Cell]

theorem Consistent.linkNext
    {process : Process} {prev element : Cell}
    (consistent : Consistent state cells)
    (isLinking : state.enqueuer process = .linking (some prev) element) :
    Consistent { state with
      next := update state.next prev (some element)
      enqueuer := update state.enqueuer process .idle } cells := by
  have linking := @linking_of_idle _ _ _ state process
  have joined := consistent.joined
  obtain ⟨isNone, neighbours⟩ := joined.linking process prev element isLinking
  have inside := mem_of_neighbours neighbours
  have successor {second : Cell} (also : [prev, second] <:+: cells) :
      second = element :=
    neighbours_unique joined.nodup also neighbours
  have notLast := getLast?_ne_of_neighbours joined.nodup neighbours
  have noFirst (before : NoFirst state) : NoFirst { state with
      next := update state.next prev (some element)
      enqueuer := update state.enqueuer process .idle } := by
    intro other second links
    exact before other second ((linking other none second).mp links).2
  constructor
  case joined =>
    constructor
    case nodup => exact joined.nodup
    case tail => exact joined.tail
    case last =>
      intro last isLast
      have different : last ≠ prev := by
        rintro rfl
        exact notLast isLast
      simp only [update_of_ne different]
      exact joined.last last isLast
    case joined =>
      intro first second also
      by_cases same : first = prev
      · subst same
        obtain rfl := successor also
        exact .inl (update_self ..)
      · rcases joined.joined first second also with linked | ⟨linker, links⟩
        · exact .inl ((update_of_ne same ..).trans linked)
        · refine .inr ⟨linker, (linking linker (some first) second).mpr ⟨?_, links⟩⟩
          rintro rfl
          obtain ⟨isPrev, -⟩ := Enqueuer.linking.inj (links.symm.trans isLinking)
          exact same (Option.some.inj isPrev)
    case linking =>
      intro linker first second links
      obtain ⟨different, before⟩ := (linking linker (some first) second).mp links
      obtain ⟨stillNone, also⟩ := joined.linking linker first second before
      refine ⟨?_, also⟩
      have other : first ≠ prev := by
        rintro rfl
        obtain rfl := successor also
        exact different (joined.once linker process first second before isLinking)
      simp only [update_of_ne other]
      exact stillNone
    case once =>
      intro first second before later isFirst isSecond
      exact joined.once first second before later
        ((linking first (some before) later).mp isFirst).2
        ((linking second (some before) later).mp isSecond).2
  case stage =>
    refine consistent.stage.mono rfl rfl ?_ ?_ ?_ ?_ (fun _ _ notLast => notLast)
    · intro anchored
      cases anchored with
      | mine isMyHead noHead before => exact .mine isMyHead noHead (noFirst before)
      | shared noMyHead isHead before => exact .shared noMyHead isHead (noFirst before)
      | coming linker first noMyHead noHead isFirst links only =>
        refine .coming linker first noMyHead noHead isFirst ?_ ?_
        · refine (linking linker none first).mpr ⟨?_, links⟩
          rintro rfl
          nomatch isLinking.symm.trans links
        · intro other second later
          exact only other second ((linking other none second).mp later).2
    · exact fun arrived => ⟨⟨arrived.1, noFirst arrived.2⟩, rfl, rfl⟩
    · exact fun _ held => ⟨held.first, held.head, noFirst held.noFirst⟩
    · intro linked isSome
      apply update_of_ne
      rintro rfl
      exact isSome isNone
  case swapped => exact consistent.swapped
  case gone => exact consistent.gone
  case swapping =>
    intro other second isSwapping
    obtain ⟨stillNone, outside⟩ := consistent.swapping other second (swapping_of_idle isSwapping)
    refine ⟨?_, outside⟩
    have different : second ≠ prev := by
      rintro rfl
      exact outside (mem_append_right _ inside.1)
    simp only [update_of_ne different]
    exact stillNone
  case unique =>
    intro first second third isFirst isSecond
    exact consistent.unique first second third (swapping_of_idle isFirst)
      (swapping_of_idle isSecond)
  case clean =>
    intro second member outside
    have different : second ≠ prev := by
      rintro rfl
      exact outside (mem_append_right _ inside.1)
    simp only [update_of_ne different]
    exact consistent.clean second member outside

end

end Mpich.Nemesis.Queue
