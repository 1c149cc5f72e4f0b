import ContinuousQuery.Proofs.LoweredTrees
import ContinuousQuery.Proofs.Wiring

/-!
The order of a compilation. It visits operators from the root, each before those that feed its
stage, and draws one id for each of them. It stops at the first operator without a processor
or at the first id that it has drawn before, and else every visited operator has its own stage.
-/

namespace ContinuousQuery

namespace Algebra

variable {ι : Type}

def stageKind? : Algebra ι → Option StageKind
  | .pattern _ _ => some .pattern
  | .unary _ (.projection _) _ => some .projection
  | .binary _ .naturalJoin _ _ | .binary _ (.leftOuterJoin false) _ _ => some .join
  | _ => none

/-- The operators from the root downwards, each before those that feed its stage and left before
right. A projection reads what a rebinding below it reads, and nothing is below a refusal. -/
def visits : Algebra ι → List (Algebra ι)
  | whole@(.unary _ (.projection _) (.unary _ (.rebinding _) operand)) => whole :: operand.visits
  | whole@(.unary _ (.projection _) operand) => whole :: operand.visits
  | whole@(.binary _ .naturalJoin left right) => whole :: (left.visits ++ right.visits)
  | whole@(.binary _ (.leftOuterJoin false) left right) => whole :: (left.visits ++ right.visits)
  | other => [other]

theorem labels_visits_sublist (algebra : Algebra ι) :
    (algebra.visits.map label).Sublist algebra.labels := by
  fun_induction visits algebra with
  | case1 node names below elements operand ih => exact (ih.cons _).cons_cons _
  | case2 node names operand _ ih => exact ih.cons_cons _
  | case3 node left right leftIh rightIh =>
    rw [List.map_cons, List.map_append]
    exact (leftIh.append rightIh).cons_cons _
  | case4 node left right leftIh rightIh =>
    rw [List.map_cons, List.map_append]
    exact (leftIh.append rightIh).cons_cons _
  | case5 other =>
    have top : other.label ∈ other.labels := by
      cases other <;> simp [label, labels]
    exact List.singleton_sublist.mpr top

end Algebra

namespace IdSource

variable {σ : Type}

def stateAfter (source : IdSource σ) : List StageKind → σ → σ
  | [], state => state
  | kind :: rest, state => source.stateAfter rest (source.next kind state).2

theorem length_draw (source : IdSource σ) (kinds : List StageKind) (state : σ) :
    (source.draw kinds state).length = kinds.length := by
  induction kinds generalizing state with
  | nil => rfl
  | cons kind rest ih => exact congrArg Nat.succ (ih _)

theorem draw_concat (source : IdSource σ) (kinds : List StageKind) (kind : StageKind) (state : σ) :
    source.draw (kinds ++ [kind]) state =
      source.draw kinds state ++ [(source.next kind (source.stateAfter kinds state)).1] := by
  induction kinds generalizing state with
  | nil => rfl
  | cons first rest ih => simp only [List.cons_append, draw, stateAfter, ih]

theorem stateAfter_concat (source : IdSource σ) (kinds : List StageKind) (kind : StageKind)
    (state : σ) :
    source.stateAfter (kinds ++ [kind]) state =
      (source.next kind (source.stateAfter kinds state)).2 := by
  induction kinds generalizing state with
  | nil => rfl
  | cons first rest ih => simp only [List.cons_append, stateAfter, ih]

def counted (kind : StageKind) (count : Nat) : String := kind.idPrefix ++ toString count

theorem counted_injective {kind other : StageKind} {count number : Nat}
    (same : counted kind count = counted other number) : count = number := by
  have chars := congrArg String.toList same
  have digits : ∀ before : String, before ++ toString count = before ++ toString number →
      count = number := by
    intro before equal
    have tails := congrArg String.toList equal
    rw [String.toList_append, String.toList_append] at tails
    have read := congrArg (fun digits => Nat.ofDigitChars 10 digits 0)
      (List.append_cancel_left tails)
    simpa [Nat.toString_eq_ofList_toDigits] using read
  cases kind <;> cases other <;>
    first
    | exact digits _ same
    | simp [counted, StageKind.idPrefix] at chars

theorem draw_sequential (kinds : List StageKind) (count : Nat) :
    sequential.draw kinds count =
      kinds.mapIdx (fun index kind => counted kind (count + index)) := by
  induction kinds generalizing count with
  | nil => rfl
  | cons kind rest ih =>
    have drawn : sequential.draw (kind :: rest) count =
        counted kind count :: sequential.draw rest (count + 1) := rfl
    rw [List.mapIdx_cons, drawn, ih]
    simp only [Nat.add_zero, Nat.add_assoc, Nat.add_comm 1]

theorem stateAfter_sequential (kinds : List StageKind) (count : Nat) :
    sequential.stateAfter kinds count = count + kinds.length := by
  induction kinds generalizing count with
  | nil => rfl
  | cons kind rest ih =>
    rw [List.length_cons, stateAfter, ih, Nat.add_comm rest.length, ← Nat.add_assoc]
    rfl

theorem nodup_draw_sequential (kinds : List StageKind) (count : Nat) :
    (sequential.draw kinds count).Nodup := by
  induction kinds generalizing count with
  | nil => exact List.nodup_nil
  | cons kind rest ih =>
    refine List.nodup_cons.mpr ⟨fun later => ?_, ih (count + 1)⟩
    rw [draw_sequential] at later
    obtain ⟨index, inside, same⟩ := List.mem_mapIdx.mp later
    have number : count + 1 + index = count := counted_injective same
    omega

end IdSource

namespace Compilation

variable {σ : Type} {tree : Tree} {source : IdSource σ}

/-- The ids that a source yields for visited operators, one for each that has a processor. -/
def drawn (source : IdSource σ) (start : σ) (visited : List (Algebra NodeId)) : List String :=
  source.draw (visited.filterMap Algebra.stageKind?) start

/-- The state of a source that has been asked for one id for each of these operators. -/
def asked (source : IdSource σ) (start : σ) (visited : List (Algebra NodeId)) : σ :=
  source.stateAfter (visited.filterMap Algebra.stageKind?) start

/-- What a source that has been asked for the ids of the visited operators yields next. -/
def nextDrawn (source : IdSource σ) (start : σ) (visited : List (Algebra NodeId))
    (kind : StageKind) : String × σ := source.next kind (asked source start visited)

/-- All visited operators have a processor, and no id has been drawn twice for them. -/
structure Accepts (source : IdSource σ) (start : σ) (visited : List (Algebra NodeId)) : Prop where
  supported : ∀ operator ∈ visited, operator.stageKind?.isSome
  distinct : (drawn source start visited).Nodup

structure Tally (σ : Type) where
  state : σ
  entries : List (NodeId × String)

def Tally.visit (source : IdSource σ) (visited : Algebra NodeId) :
    EStateM CompileError (Tally σ) Unit := do
  match visited.stageKind? with
  | none => throw (.unsupportedOperator visited.label visited.operator.name)
  | some kind =>
    let tally ← get
    let (id, state) := source.next kind tally.state
    set { tally with state := state }
    if id ∈ tally.entries.map Prod.snd then throw (.duplicateStageId id)
    set (⟨state, tally.entries ++ [(visited.label, id)]⟩ : Tally σ)

theorem Tally.run_visit (source : IdSource σ) (visited : Algebra NodeId) (tally : Tally σ) :
    (Tally.visit source visited).run tally =
      match visited.stageKind? with
      | none => .error (.unsupportedOperator visited.label visited.operator.name) tally
      | some kind =>
        let drawn := source.next kind tally.state
        if drawn.1 ∈ tally.entries.map Prod.snd then
          .error (.duplicateStageId drawn.1) ⟨drawn.2, tally.entries⟩
        else .ok () ⟨drawn.2, tally.entries ++ [(visited.label, drawn.1)]⟩ := by
  unfold visit
  cases visited.stageKind? with
  | none => rfl
  | some kind =>
    simp only [run_get_bind]
    by_cases known : (source.next kind tally.state).1 ∈ tally.entries.map Prod.snd
    · simp only [if_pos known]
      rfl
    · simp only [if_neg known]
      rfl

def Draft.tally (draft : Draft σ) : Tally σ :=
  ⟨draft.state, draft.stages.map (fun stage => (stage.node, stage.id))⟩

theorem shows_record (tree : Tree) (source : IdSource σ) (visited : Algebra NodeId)
    {capability : Capability} {inputs : List NodeId}
    (kind : visited.stageKind? = some capability.stageKind) :
    Shows Draft.tally (record tree source visited.label capability inputs)
      (Tally.visit source visited) := by
  intro draft
  have known : draft.stages.any
      (fun stage => stage.id = (source.next capability.stageKind draft.state).1) = true ↔
      (source.next capability.stageKind draft.state).1 ∈ draft.tally.entries.map Prod.snd := by
    simp [Draft.tally]
  have same : draft.tally.state = draft.state := rfl
  simp only [run_record, Tally.run_visit, kind, same]
  by_cases again : (source.next capability.stageKind draft.state).1 ∈
      draft.tally.entries.map Prod.snd
  · rw [if_pos (known.mpr again), if_pos again]
    rfl
  · rw [if_neg (mt known.mp again), if_neg again]
    simp [shown, Draft.tally]

theorem shows_visit (tree : Tree) (source : IdSource σ) (algebra : Algebra NodeId) :
    Shows Draft.tally (visit tree source algebra) (algebra.visits.forM (Tally.visit source)) := by
  have both : ∀ {left right : Algebra NodeId},
      Shows Draft.tally (visit tree source left) (left.visits.forM (Tally.visit source)) →
      Shows Draft.tally (visit tree source right) (right.visits.forM (Tally.visit source)) →
      Shows Draft.tally (do visit tree source left; visit tree source right)
        ((left.visits ++ right.visits).forM (Tally.visit source)) := by
    intro left right onLeft onRight
    rw [forM_append]
    exact onLeft.bind fun _ => onRight
  fun_induction visit tree source algebra with
  | case1 node triple =>
    rw [show (Algebra.pattern node triple).visits = [.pattern node triple] from rfl,
      forM_singleton]
    exact shows_record tree source (.pattern node triple) rfl
  | case2 node names label elements operand ih =>
    exact (shows_record tree source
      (.unary node (.projection names) (.unary label (.rebinding elements) operand)) rfl).bind
        fun _ => ih
  | case3 node names operand others ih =>
    rw [Algebra.visits]
    · exact (shows_record tree source (.unary node (.projection names) operand) rfl).bind
        fun _ => ih
    · exact others
  | case4 node left right leftIh rightIh =>
    exact (shows_record tree source (.binary node .naturalJoin left right) rfl).bind
      fun _ => both leftIh rightIh
  | case5 node left right leftIh rightIh =>
    exact (shows_record tree source (.binary node (.leftOuterJoin false) left right) rfl).bind
      fun _ => both leftIh rightIh
  | case6 refused notPattern notRebinding notProjection notNatural notOptional =>
    have last : refused.stageKind? = none ∧ refused.visits = [refused] := by
      cases refused with
      | pattern node triple => exact absurd rfl (notPattern node triple)
      | unary node kind operand =>
        cases kind with
        | projection names => exact absurd rfl (notProjection node names operand)
        | _ => exact ⟨rfl, rfl⟩
      | binary node kind left right =>
        cases kind with
        | naturalJoin => exact absurd rfl (notNatural node left right)
        | leftOuterJoin filtered =>
          cases filtered with
          | false => exact absurd rfl (notOptional node left right)
          | true => exact ⟨rfl, rfl⟩
        | _ => exact ⟨rfl, rfl⟩
      | unsupported node name => exact ⟨rfl, rfl⟩
    obtain ⟨none, alone⟩ := last
    rw [alone, forM_singleton, Tally.visit, none]
    exact shows_throw _

def tallied (source : IdSource σ) (start : σ) (visited : List (Algebra NodeId)) : Tally σ :=
  ⟨asked source start visited, (visited.map Algebra.label).zip (drawn source start visited)⟩

section Visited

variable {start : σ} {visited : List (Algebra NodeId)} {last : Algebra NodeId}

theorem length_drawn (supported : ∀ operator ∈ visited, operator.stageKind?.isSome) :
    (drawn source start visited).length = visited.length := by
  rw [drawn, IdSource.length_draw]
  exact List.filterMap_length_eq_length.mpr supported

theorem drawn_concat {kind : StageKind} (known : last.stageKind? = some kind) :
    drawn source start (visited ++ [last]) =
      drawn source start visited ++ [(nextDrawn source start visited kind).1] := by
  rw [drawn, List.filterMap_append, List.filterMap_cons_some known, List.filterMap_nil,
    IdSource.draw_concat]
  rfl

theorem asked_concat {kind : StageKind} (known : last.stageKind? = some kind) :
    asked source start (visited ++ [last]) = (nextDrawn source start visited kind).2 := by
  rw [asked, List.filterMap_append, List.filterMap_cons_some known, List.filterMap_nil,
    IdSource.stateAfter_concat]
  rfl

theorem accepts_concat_iff :
    Accepts source start (visited ++ [last]) ↔ Accepts source start visited ∧
      ∃ kind, last.stageKind? = some kind ∧
        (nextDrawn source start visited kind).1 ∉ drawn source start visited := by
  constructor
  · intro accepts
    have supported := List.forall_mem_append.mp accepts.supported
    obtain ⟨kind, known⟩ :=
      Option.isSome_iff_exists.mp (supported.2 last (List.mem_singleton_self _))
    have distinct := accepts.distinct
    rw [drawn_concat known, ← List.concat_eq_append, List.nodup_concat] at distinct
    exact ⟨⟨supported.1, distinct.2⟩, kind, known, distinct.1⟩
  · rintro ⟨accepts, kind, known, new⟩
    refine ⟨List.forall_mem_append.mpr ⟨accepts.supported, ?_⟩, ?_⟩
    · intro operator member
      rw [List.mem_singleton.mp member, known]
      rfl
    · rw [drawn_concat known, ← List.concat_eq_append, List.nodup_concat]
      exact ⟨new, accepts.distinct⟩

theorem nodes_tallied (accepts : Accepts source start visited) :
    (tallied source start visited).entries.map Prod.fst = visited.map Algebra.label := by
  refine List.map_fst_zip (Nat.le_of_eq ?_)
  rw [List.length_map, length_drawn accepts.supported]

theorem ids_tallied (accepts : Accepts source start visited) :
    (tallied source start visited).entries.map Prod.snd = drawn source start visited := by
  refine List.map_snd_zip (Nat.le_of_eq ?_)
  rw [List.length_map, length_drawn accepts.supported]

theorem tallied_concat (accepts : Accepts source start visited) {kind : StageKind}
    (known : last.stageKind? = some kind) :
    tallied source start (visited ++ [last]) =
      ⟨(nextDrawn source start visited kind).2, (tallied source start visited).entries ++
        [(last.label, (nextDrawn source start visited kind).1)]⟩ := by
  have same : (visited.map Algebra.label).length = (drawn source start visited).length := by
    rw [List.length_map, length_drawn accepts.supported]
  simp only [tallied, drawn_concat known, asked_concat known, List.map_append,
    List.zip_append same]
  rfl

/-- What becomes of one more visited operator. An id that has been drawn before is gone, too. -/
theorem run_visit_tallied (accepts : Accepts source start visited) :
    (Tally.visit source last).run (tallied source start visited) =
      match last.stageKind? with
      | none => .error (.unsupportedOperator last.label last.operator.name)
          (tallied source start visited)
      | some kind =>
        if (nextDrawn source start visited kind).1 ∈ drawn source start visited then
          .error (.duplicateStageId (nextDrawn source start visited kind).1)
            ⟨(nextDrawn source start visited kind).2, (tallied source start visited).entries⟩
        else .ok () (tallied source start (visited ++ [last])) := by
  rw [Tally.run_visit]
  split
  next => rfl
  next kind known =>
    rw [ids_tallied accepts, tallied_concat accepts known]
    rfl

theorem run_visit_tallied_eq_ok_iff (accepts : Accepts source start visited) {tally : Tally σ} :
    (Tally.visit source last).run (tallied source start visited) = .ok () tally ↔
      Accepts source start (visited ++ [last]) ∧
        tally = tallied source start (visited ++ [last]) := by
  rw [run_visit_tallied accepts, accepts_concat_iff, and_iff_right accepts]
  cases known : last.stageKind? with
  | none => simp
  | some kind =>
    by_cases again : (nextDrawn source start visited kind).1 ∈ drawn source start visited
    · simp [again]
    · simp [again, eq_comm]

theorem exists_unsupported_iff (accepts : Accepts source start visited) {node : NodeId}
    {name : String} {final : σ} :
    (∃ tally, (Tally.visit source last).run (tallied source start visited) =
        .error (.unsupportedOperator node name) tally ∧ tally.state = final) ↔
      last.stageKind? = none ∧ last.label = node ∧ last.operator.name = name ∧
        asked source start visited = final := by
  rw [run_visit_tallied accepts]
  cases known : last.stageKind? with
  | none => simp [tallied, and_assoc]
  | some kind =>
    by_cases again : (nextDrawn source start visited kind).1 ∈ drawn source start visited
    · simp [again]
    · simp [again]

theorem exists_duplicate_iff (accepts : Accepts source start visited) {id : String} {final : σ} :
    (∃ tally, (Tally.visit source last).run (tallied source start visited) =
        .error (.duplicateStageId id) tally ∧ tally.state = final) ↔
      ∃ kind, last.stageKind? = some kind ∧ nextDrawn source start visited kind = (id, final) ∧
        id ∈ drawn source start visited := by
  rw [run_visit_tallied accepts]
  cases known : last.stageKind? with
  | none => simp
  | some kind =>
    simp only [Option.some.injEq, exists_eq_left', Prod.ext_iff]
    by_cases again : (nextDrawn source start visited kind).1 ∈ drawn source start visited
    · simp only [if_pos again, EStateM.Result.error.injEq, CompileError.duplicateStageId.injEq]
      constructor
      · rintro ⟨_, ⟨same, rfl⟩, rfl⟩
        exact ⟨⟨same, rfl⟩, same ▸ again⟩
      · rintro ⟨⟨same, rfl⟩, -⟩
        exact ⟨_, ⟨same, rfl⟩, rfl⟩
    · simp only [if_neg again, reduceCtorEq, false_and, exists_false, false_iff, not_and]
      exact fun same known => again (same.1 ▸ known)

theorem run_forM_visit_eq_ok_iff {tally : Tally σ} :
    (visited.forM (Tally.visit source)).run ⟨start, []⟩ = .ok () tally ↔
      Accepts source start visited ∧ tally = tallied source start visited := by
  induction visited using List.reverseRecOn generalizing tally with
  | nil =>
    have accepts : Accepts source start [] :=
      ⟨fun _ member => (List.not_mem_nil member).elim, List.nodup_nil⟩
    have same : (.ok () ⟨start, []⟩ : EStateM.Result CompileError (Tally σ) Unit) = .ok () tally ↔
        tally = ⟨start, []⟩ := by
      simp [eq_comm]
    exact same.trans (and_iff_right accepts).symm
  | append_singleton visited last ih =>
    rw [forM_append, forM_singleton, run_bind_eq_ok_iff]
    constructor
    · rintro ⟨_, middle, before, added⟩
      obtain ⟨accepts, rfl⟩ := ih.mp before
      exact (run_visit_tallied_eq_ok_iff accepts).mp added
    · intro both
      have accepts := (accepts_concat_iff.mp both.1).1
      exact ⟨(), _, ih.mpr ⟨accepts, rfl⟩, (run_visit_tallied_eq_ok_iff accepts).mpr both⟩

theorem run_forM_visit_eq_error_iff {error : CompileError} {tally : Tally σ} :
    (visited.forM (Tally.visit source)).run ⟨start, []⟩ = .error error tally ↔
      ∃ before failing after, visited = before ++ failing :: after ∧
        Accepts source start before ∧
        (Tally.visit source failing).run (tallied source start before) = .error error tally := by
  rw [run_forM_eq_error_iff]
  simp only [run_forM_visit_eq_ok_iff]
  constructor
  · rintro ⟨before, failing, after, middle, parts, ⟨accepts, rfl⟩, stopped⟩
    exact ⟨before, failing, after, parts, accepts, stopped⟩
  · rintro ⟨before, failing, after, parts, accepts, stopped⟩
    exact ⟨before, failing, after, _, parts, ⟨accepts, rfl⟩, stopped⟩

end Visited

/-- The stages of a query are those of the visited operators under the ids drawn for them, and
its ids are those of its stages. -/
structure Records (source : IdSource σ) (start : σ) (visited : List (Algebra NodeId))
    (query : CompiledQuery) : Prop where
  nodes : query.stages.map Stage.node = visited.map Algebra.label
  distinct : (query.stages.map Stage.node).Nodup
  ids : query.stages.map Stage.id = drawn source start visited
  known : query.ids = query.stages.map (fun stage => (stage.node, stage.id))
  found : ∀ node id, query.idOf? node = some id ↔
    ∃ stage ∈ query.stages, stage.node = node ∧ stage.id = id

/-- What compilation makes of visited operators, and how it leaves the source. -/
structure Outcome (source : IdSource σ) (start : σ) (visited : List (Algebra NodeId))
    (outcome : Except CompileError CompiledQuery × σ) : Prop where
  /-- The source has been asked for the operators before a refused one, and for no others. -/
  unsupported : ∀ node name final, outcome = (.error (.unsupportedOperator node name), final) ↔
    ∃ before refused after, visited = before ++ refused :: after ∧ Accepts source start before ∧
      refused.stageKind? = none ∧ refused.label = node ∧ refused.operator.name = name ∧
      asked source start before = final
  /-- The id that comes again is the last one for which the source has been asked. -/
  duplicate : ∀ id final, outcome = (.error (.duplicateStageId id), final) ↔
    ∃ before repeated after, visited = before ++ repeated :: after ∧
      Accepts source start before ∧ ∃ kind, repeated.stageKind? = some kind ∧
        source.next kind (asked source start before) = (id, final) ∧
        id ∈ drawn source start before
  accepted : ∀ final, (∃ query, outcome = (.ok query, final)) ↔
    Accepts source start visited ∧ asked source start visited = final
  records : ∀ query, outcome.1 = .ok query → Records source start visited query

theorem idOf?_eq_some_iff {query : CompiledQuery} (distinct : (query.stages.map Stage.node).Nodup)
    (known : query.ids = query.stages.map (fun stage => (stage.node, stage.id)))
    {node : NodeId} {id : String} :
    query.idOf? node = some id ↔ ∃ stage ∈ query.stages, stage.node = node ∧ stage.id = id := by
  have nodes : (query.ids.map Prod.fst).Nodup := by
    rw [known, List.map_map]
    exact distinct
  rw [CompiledQuery.idOf?, Option.map_eq_some_iff]
  constructor
  · rintro ⟨entry, first, rfl⟩
    have member := List.mem_of_find?_eq_some first
    rw [known] at member
    obtain ⟨stage, inside, rfl⟩ := List.mem_map.mp member
    have same := List.find?_some first
    exact ⟨stage, inside, of_decide_eq_true same, rfl⟩
  · rintro ⟨stage, inside, rfl, rfl⟩
    have member : (stage.node, stage.id) ∈ query.ids := by
      rw [known]
      exact List.mem_map_of_mem inside
    exact ⟨_, find?_eq_some_of_nodup nodes member, rfl⟩

section Draft

variable {algebra : Algebra NodeId} {start : σ}

theorem tally_of_run_visit {draft : Draft σ}
    (visited : (visit tree source algebra).run ⟨start, []⟩ = .ok () draft) :
    Accepts source start algebra.visits ∧ draft.tally = tallied source start algebra.visits := by
  have seen := shows_visit tree source algebra ⟨start, []⟩
  rw [visited] at seen
  exact run_forM_visit_eq_ok_iff.mp seen.symm

theorem exists_run_visit (accepts : Accepts source start algebra.visits) :
    ∃ draft, (visit tree source algebra).run ⟨start, []⟩ = .ok () draft := by
  have seen := shows_visit tree source algebra ⟨start, []⟩
  obtain ⟨draft, visited, -⟩ :=
    shown_eq_ok_iff.mp (seen.trans (run_forM_visit_eq_ok_iff.mpr ⟨accepts, rfl⟩))
  exact ⟨draft, visited⟩

theorem run_visit_eq_error_iff {error : CompileError} {final : σ} :
    (∃ draft, (visit tree source algebra).run ⟨start, []⟩ = .error error draft ∧
        draft.state = final) ↔
      ∃ before failing after, algebra.visits = before ++ failing :: after ∧
        Accepts source start before ∧
        ∃ tally, (Tally.visit source failing).run (tallied source start before) =
          .error error tally ∧ tally.state = final := by
  have seen := shows_visit tree source algebra ⟨start, []⟩
  constructor
  · rintro ⟨draft, failed, rfl⟩
    rw [failed] at seen
    obtain ⟨before, failing, after, parts, accepts, stopped⟩ :=
      run_forM_visit_eq_error_iff.mp seen.symm
    exact ⟨before, failing, after, parts, accepts, _, stopped, rfl⟩
  · rintro ⟨before, failing, after, parts, accepts, tally, stopped, rfl⟩
    have failed := run_forM_visit_eq_error_iff.mpr ⟨before, failing, after, parts, accepts, stopped⟩
    obtain ⟨draft, visited, rfl⟩ := shown_eq_error_iff.mp (seen.trans failed)
    exact ⟨draft, visited, rfl⟩

theorem records_of_run_visit (distinct : (algebra.visits.map Algebra.label).Nodup)
    {draft : Draft σ} (visited : (visit tree source algebra).run ⟨start, []⟩ = .ok () draft) :
    Records source start algebra.visits draft.query := by
  obtain ⟨accepts, same⟩ := tally_of_run_visit visited
  have nodes : draft.stages.map Stage.node = algebra.visits.map Algebra.label := by
    rw [← nodes_tallied accepts, ← same, Draft.tally, List.map_map]
    rfl
  have ids : draft.stages.map Stage.id = drawn source start algebra.visits := by
    rw [← ids_tallied accepts, ← same, Draft.tally, List.map_map]
    rfl
  have apart : (draft.stages.map Stage.node).Nodup := nodes ▸ distinct
  exact ⟨nodes, apart, ids, rfl, fun _ _ => idOf?_eq_some_iff apart rfl⟩

end Draft

section Compiled

variable {algebra : Algebra NodeId} (whole : tree.algebra? = some algebra)
include whole

theorem compileFrom_eq (source : IdSource σ) (start : σ) :
    tree.compileFrom source start = finish ((visit tree source algebra).run ⟨start, []⟩) := by
  rw [Tree.compileFrom, whole]

theorem compileFrom_eq_error_iff {source : IdSource σ} {start final : σ} {error : CompileError} :
    tree.compileFrom source start = (.error error, final) ↔
      ∃ before failing after, algebra.visits = before ++ failing :: after ∧
        Accepts source start before ∧
        ∃ tally, (Tally.visit source failing).run (tallied source start before) =
          .error error tally ∧ tally.state = final := by
  rw [compileFrom_eq whole, finish_eq_error_iff, run_visit_eq_error_iff]

theorem compile_ne_empty {source : IdSource σ} {start : σ} :
    tree.compile source start ≠ .error .emptyAlgebraTree := by
  intro failed
  obtain ⟨before, failing, after, -, accepts, _, stopped, -⟩ :=
    (compileFrom_eq_error_iff whole).mp (Prod.ext failed rfl)
  rw [run_visit_tallied accepts] at stopped
  split at stopped
  next => cases stopped
  next => split at stopped <;> cases stopped

theorem outcome_compileFrom (distinct : (algebra.visits.map Algebra.label).Nodup)
    (source : IdSource σ) (start : σ) :
    Outcome source start algebra.visits (tree.compileFrom source start) := by
  refine ⟨fun node name final => ?_, fun id final => ?_, fun final => ?_, fun query done => ?_⟩
  · rw [compileFrom_eq_error_iff whole]
    exact exists₃_congr fun before refused after => and_congr_right fun _ =>
      and_congr_right fun accepts => exists_unsupported_iff accepts
  · rw [compileFrom_eq_error_iff whole]
    exact exists₃_congr fun before repeated after => and_congr_right fun _ =>
      and_congr_right fun accepts => exists_duplicate_iff accepts
  · simp only [compileFrom_eq whole, finish_eq_ok_iff]
    constructor
    · rintro ⟨_, draft, visited, -, rfl⟩
      obtain ⟨accepts, same⟩ := tally_of_run_visit visited
      exact ⟨accepts, (congrArg Tally.state same).symm⟩
    · rintro ⟨accepts, rfl⟩
      obtain ⟨draft, visited⟩ := exists_run_visit accepts
      obtain ⟨-, same⟩ := tally_of_run_visit visited
      exact ⟨_, draft, visited, rfl, congrArg Tally.state same⟩
  · rw [compileFrom_eq whole] at done
    obtain ⟨draft, visited, rfl, -⟩ := finish_eq_ok_iff.mp (Prod.ext done rfl)
    exact records_of_run_visit distinct visited

end Compiled

namespace Outcome

variable {start : σ} {visited : List (Algebra NodeId)}
  {outcome : Except CompileError CompiledQuery × σ}

theorem exists_query_iff (goes : Outcome source start visited outcome) :
    (∃ query, outcome.1 = .ok query) ↔ Accepts source start visited := by
  constructor
  · rintro ⟨query, done⟩
    exact ((goes.accepted outcome.2).mp ⟨query, Prod.ext done rfl⟩).1
  · intro accepts
    obtain ⟨query, rfl⟩ := (goes.accepted _).mpr ⟨accepts, rfl⟩
    exact ⟨query, rfl⟩

theorem ne_duplicate {count : Nat} {outcome : Except CompileError CompiledQuery × Nat}
    (goes : Outcome .sequential count visited outcome) (id : String) :
    outcome.1 ≠ .error (.duplicateStageId id) := by
  intro failed
  obtain ⟨before, repeated, after, -, -, kind, known, next, again⟩ :=
    (goes.duplicate id outcome.2).mp (Prod.ext failed rfl)
  have same : (nextDrawn .sequential count before kind).1 = id := congrArg Prod.fst next
  have nodup : (drawn .sequential count (before ++ [repeated])).Nodup :=
    IdSource.nodup_draw_sequential _ count
  rw [drawn_concat known, same, ← List.concat_eq_append, List.nodup_concat] at nodup
  exact nodup.1 again

end Outcome

theorem asked_sequential {count : Nat} {visited : List (Algebra NodeId)}
    (supported : ∀ operator ∈ visited, operator.stageKind?.isSome) :
    asked .sequential count visited = count + visited.length := by
  rw [asked, IdSource.stateAfter_sequential, List.filterMap_length_eq_length.mpr supported]

end Compilation

namespace Tree

variable {tree : Tree}

theorem algebra?_of_size_eq_zero (empty : tree.size = 0) : tree.algebra? = none := by
  have nodes : tree.nodes = [] := List.eq_nil_of_length_eq_zero empty
  have root : tree.root? = none := by
    rw [root?, nodes, List.getLast?_nil]
  rw [algebra?, root]

theorem Consistent.nodup_visits (consistent : tree.Consistent) {algebra : Algebra NodeId}
    (represents : tree.Represents algebra) : (algebra.visits.map Algebra.label).Nodup :=
  algebra.labels_visits_sublist.nodup (consistent.nodup_labels represents)

theorem Built.exists_algebra? (built : tree.Built) (nonempty : 0 < tree.size) :
    ∃ algebra, tree.algebra? = some algebra ∧ tree.Represents algebra ∧
      algebra.label = tree.lastId := by
  have unattached : tree.parent? tree.lastId = none := by
    cases built with
    | empty => exact absurd nonempty (Nat.lt_irrefl 0)
    | add before added =>
      obtain ⟨free, rfl⟩ := add_eq_ok_iff.mp added
      exact parent?_lastId_push
  have inside : tree.lastId.index < tree.nodes.length := Nat.sub_one_lt_of_lt nonempty
  have represents := represents_below tree _ inside
  have label : (tree.below tree.lastId.index inside).label = tree.lastId := label_below ..
  have top := root?_of_lastId nonempty unattached
  exact ⟨_, algebra?_eq_some_iff.mpr ⟨represents, top.trans (congrArg some label.symm)⟩,
    represents, label⟩

/-- Compilation visits the operators of a tree from its root, and its source decides with the
order of the visits how far it gets. It asks the source for one id for each visited operator that
has a processor, until it stops, and not for any id if the tree is empty. -/
theorem compile_outcome (built : tree.Built) :
    (∀ {σ : Type} (source : IdSource σ) (start final : σ),
      tree.compileFrom source start = (.error .emptyAlgebraTree, final) ↔
        tree.size = 0 ∧ start = final) ∧
    (0 < tree.size → ∃ root, tree.root? = some root.label ∧ tree.Represents root ∧
      (∀ {σ : Type} (source : IdSource σ) (start : σ),
        Compilation.Outcome source start root.visits (tree.compileFrom source start)) ∧
      ∀ count, (∀ id, tree.compile .sequential count ≠ .error (.duplicateStageId id)) ∧
        (∀ query final, tree.compileFrom .sequential count = (.ok query, final) →
          query.stages.map Stage.id = (root.visits.filterMap Algebra.stageKind?).mapIdx
            (fun index kind => kind.idPrefix ++ toString (count + index)) ∧
          final = count + root.visits.length) ∧
        ∀ error final, tree.compileFrom .sequential count = (.error error, final) →
          ∃ before refused after, root.visits = before ++ refused :: after ∧
            error = .unsupportedOperator refused.label refused.operator.name ∧
            final = count + before.length) := by
  constructor
  · intro σ source start final
    constructor
    · intro failed
      have empty : tree.size = 0 := by
        by_contra nonempty
        obtain ⟨root, whole, -⟩ := built.exists_algebra? (Nat.pos_of_ne_zero nonempty)
        exact Compilation.compile_ne_empty whole (congrArg Prod.fst failed)
      rw [compileFrom, algebra?_of_size_eq_zero empty] at failed
      exact ⟨empty, congrArg Prod.snd failed⟩
    · rintro ⟨empty, rfl⟩
      rw [compileFrom, algebra?_of_size_eq_zero empty]
  · intro nonempty
    obtain ⟨root, whole, represents, -⟩ := built.exists_algebra? nonempty
    have goes : ∀ {σ : Type} (source : IdSource σ) (start : σ),
        Compilation.Outcome source start root.visits (tree.compileFrom source start) :=
      Compilation.outcome_compileFrom whole (built.consistent.nodup_visits represents)
    refine ⟨root, (algebra?_eq_some_iff.mp whole).2, represents, goes, fun count => ?_⟩
    have numbered := goes .sequential count
    refine ⟨numbered.ne_duplicate, fun query final done => ⟨?_, ?_⟩, fun error final failed => ?_⟩
    · rw [(numbered.records query (congrArg Prod.fst done)).ids, Compilation.drawn,
        IdSource.draw_sequential]
      rfl
    · obtain ⟨accepts, rfl⟩ := (numbered.accepted final).mp ⟨query, done⟩
      exact Compilation.asked_sequential accepts.supported
    · cases error with
      | emptyAlgebraTree =>
        exact absurd (congrArg Prod.fst failed) (Compilation.compile_ne_empty whole)
      | duplicateStageId id => exact absurd (congrArg Prod.fst failed) (numbered.ne_duplicate id)
      | unsupportedOperator node name =>
        obtain ⟨before, refused, after, parts, accepts, -, rfl, rfl, rfl⟩ :=
          (numbered.unsupported node name final).mp failed
        exact ⟨before, refused, after, parts, rfl, Compilation.asked_sequential accepts.supported⟩

/-- A join of two patterns, with a copied variable that a projection selects. -/
def copiedVariable : Tree :=
  .ofOperators [.pattern ⟨.variable "a", .iri "p", .variable "b"⟩,
    .pattern ⟨.variable "b", .iri "q", .variable "c"⟩, .binary .naturalJoin ⟨0⟩ ⟨1⟩,
    .unary (.rebinding [⟨.binding "c", "d"⟩]) ⟨2⟩, .unary (.projection ["a", "d"]) ⟨3⟩]

theorem compile_outcome_copiedVariable :
    copiedVariable.Built ∧
      copiedVariable.compileFrom (.cycle ["x", "y"]) 0 = (.error (.duplicateStageId "x"), 3) ∧
      ∃ query, copiedVariable.compileFrom .sequential 0 = (.ok query, 4) ∧
        query.stages.map Stage.node = [⟨4⟩, ⟨2⟩, ⟨0⟩, ⟨1⟩] ∧
        query.stages.map Stage.id = ["PROJECTION_0", "JOIN_1", "SP_2", "SP_3"] := by
  have built : copiedVariable.Built := built_ofOperators _
  obtain ⟨root, top, represents, goes, numbered⟩ :=
    (compile_outcome built).2 (by decide +kernel)
  have whole : copiedVariable.algebra? = some (.unary ⟨4⟩ (.projection ["a", "d"])
      (.unary ⟨3⟩ (.rebinding [⟨.binding "c", "d"⟩]) (.binary ⟨2⟩ .naturalJoin
        (.pattern ⟨0⟩ ⟨.variable "a", .iri "p", .variable "b"⟩)
        (.pattern ⟨1⟩ ⟨.variable "b", .iri "q", .variable "c"⟩)))) := by
    decide +kernel
  cases (algebra?_eq_some_iff.mpr ⟨represents, top⟩).symm.trans whole
  obtain ⟨query, done⟩ :=
    ((goes .sequential 0).accepted 4).mpr ⟨⟨by decide, by decide +kernel⟩, rfl⟩
  refine ⟨built, ?_, query, done, ?_, ?_⟩
  · exact ((goes (.cycle ["x", "y"]) 0).duplicate "x" 3).mpr
      ⟨[_, _], _, [_], rfl, ⟨by decide, by decide⟩, .pattern, rfl, rfl, by decide⟩
  · exact ((goes .sequential 0).records query (congrArg Prod.fst done)).nodes
  · exact ((numbered 0).2.1 query 4 done).1

/-- A union on the right of a join is refused after the join and its left operand. -/
example :
    (Tree.ofOperators [.pattern ⟨.variable "a", .iri "p", .variable "b"⟩,
      .pattern ⟨.variable "b", .iri "q", .variable "c"⟩, .binary .union ⟨0⟩ ⟨1⟩,
      .pattern ⟨.variable "a", .iri "r", .variable "d"⟩, .binary .naturalJoin ⟨3⟩ ⟨2⟩]).compileFrom
        .sequential 7 = (.error (.unsupportedOperator ⟨2⟩ "Union"), 9) := by
  decide +kernel

end Tree

end ContinuousQuery
