import ContinuousQuery.Topology.Driver
import ContinuousQuery.Proofs.Wiring

/-!
Deliveries through the topology of a plan. A result travels up to the sink before the next
one is made, and on its way it changes the stores of the joins above. Whoever sends results
to a stage only sees that the stage takes them and what it does to the part of the state it
owns. So a plan works like its network, and sends on what the network yields.
-/

namespace ContinuousQuery

open ContinuousQuery.Topology

/-- The state has all stores that it had, and those that are not owned are the same. -/
structure RunState.Keeps (owned : List String) (before after : RunState) : Prop where
  others : ∀ name, name ∉ owned →
    OrderedMap.get? after.stores name = OrderedMap.get? before.stores name
  present : ∀ name, (OrderedMap.get? before.stores name).isSome →
    (OrderedMap.get? after.stores name).isSome

namespace RunState.Keeps

variable {owned : List String} {first second third : RunState}

theorem refl (owned : List String) (state : RunState) : Keeps owned state state :=
  ⟨fun _ _ => rfl, fun _ present => present⟩

theorem trans (left : Keeps owned first second) (right : Keeps owned second third) :
    Keeps owned first third :=
  ⟨fun name other => (right.others name other).trans (left.others name other),
    fun name present => right.present name (left.present name present)⟩

theorem mono {more : List String} (keeps : Keeps owned first second)
    (subset : ∀ name ∈ owned, name ∈ more) : Keeps more first second :=
  ⟨fun name other => keeps.others name (fun member => other (subset name member)), keeps.present⟩

end RunState.Keeps

theorem RunState.keeps_insert {owned : List String} (state : RunState) {name : String}
    (store : Store) (member : name ∈ owned) :
    Keeps owned state { state with stores := OrderedMap.insert state.stores name store } where
  others := fun other outside =>
    OrderedMap.get?_insert_of_ne _ _ (fun same => outside (same ▸ member))
  present := by
    intro other present
    rw [OrderedMap.get?_insert]
    split
    next => rfl
    next => exact present

namespace Delivery

/-- What becomes of the part of the state that a view shows when solutions are sent. The view
depends on the results and on the owned stores. -/
structure Receives {View : Type} (owned : List String) (view : RunState → View)
    (act : View → Solution → View) (send : Solution → Delivery Unit) : Prop where
  sent : ∀ state solution, (∀ name ∈ owned, (OrderedMap.get? state.stores name).isSome) →
    ∃ after, (send solution).run state = .ok () after ∧ view after = act (view state) solution ∧
      RunState.Keeps owned state after
  seen : ∀ first second : RunState, first.results = second.results →
    (∀ name ∈ owned, OrderedMap.get? first.stores name = OrderedMap.get? second.stores name) →
      view first = view second

variable {View : Type} {owned : List String} {view : RunState → View}
  {act : View → Solution → View} {send : Solution → Delivery Unit}

theorem Receives.sentAll (receives : Receives owned view act send) (solutions : List Solution)
    (state : RunState) (present : ∀ name ∈ owned, (OrderedMap.get? state.stores name).isSome) :
    ∃ after, (solutions.forM send).run state = .ok () after ∧
      view after = solutions.foldl act (view state) ∧ RunState.Keeps owned state after := by
  induction solutions generalizing state with
  | nil => exact ⟨state, rfl, rfl, .refl owned state⟩
  | cons solution rest ih =>
    obtain ⟨middle, done, shown, kept⟩ := receives.sent state solution present
    obtain ⟨after, doneLater, shownLater, keptLater⟩ :=
      ih middle (fun name member => kept.present name (present name member))
    refine ⟨after, (run_bind_of_ok done).trans doneLater, ?_, kept.trans keptLater⟩
    rw [shownLater, shown, List.foldl_cons]

end Delivery

namespace Topology

variable {processors : Processors}

theorem deliver_append {before later : List Node} {name : String} {record : Record}
    (absent : name ∉ nodeNames before) :
    deliver processors (before ++ later) name record = deliver processors later name record := by
  induction before with
  | nil => rfl
  | cons node rest ih =>
    simp only [nodeNames_cons, List.mem_cons, not_or] at absent
    rw [List.cons_append, deliver, if_neg (Ne.symm absent.1), ih absent.2]

theorem deliver_cons_self {node : Node} {later : List Node} {record : Record} :
    deliver processors (node :: later) node.name record =
      node.accept processors (deliver processors later) record := by
  rw [deliver, if_pos rfl]

theorem run_accept_processor {node : Node} {processor : Processor}
    (kind : node.kind = .processor processor)
    (provided : OrderedMap.get? processors node.name = some processor)
    {send : String → Record → Delivery Unit}
    {record : Record} {state : RunState} {forwarded : List Record} {stores : Stores}
    (processed : processor.process node.stores state.stores record = .ok (forwarded, stores)) :
    (node.accept processors send record).run state =
      (forwarded.forM (fun output => node.children.forM (fun child => send child output))).run
        { state with stores := stores } := by
  unfold Node.accept
  rw [kind]
  simp only [provided]
  have read : (get : Delivery RunState).run state = .ok state state := rfl
  have written : (set { state with stores := stores } : Delivery PUnit).run state =
      .ok ⟨⟩ { state with stores := stores } := rfl
  apply (run_bind_of_ok read).trans
  rw [processed]
  exact run_bind_of_ok written

end Topology

namespace Delivery

def sendResult (processors : Processors) (nodes : List Topology.Node) (side : Option Side)
    (children : List String) (solution : Solution) : Delivery Unit :=
  children.forM (fun child => deliver processors nodes child (.result (.ofSide side solution)))

variable {processors : Processors}

theorem run_accept_stage {node : Topology.Node} {processor : Processor}
    (kind : node.kind = .processor processor)
    (provided : OrderedMap.get? processors node.name = some processor)
    {later : List Topology.Node} {side : Option Side} {record : Record} {state : RunState}
    {solutions : List Solution} {stores : Stores}
    (processed : processor.process node.stores state.stores record =
      .ok (solutions.map (fun solution => .result (.ofSide side solution)), stores)) :
    (node.accept processors (deliver processors later) record).run state =
      (solutions.forM (sendResult processors later side node.children)).run
        { state with stores := stores } := by
  rw [run_accept_processor kind provided processed]
  exact congrArg (fun work : Delivery Unit => work.run _) List.forM_map

variable {View : Type} {owned : List String} {view : RunState → View}
  {act : View → Solution → View} {later : List Topology.Node} {side : Option Side}
  {children : List String}

theorem sendResult_singleton (nodes : List Topology.Node) (name : String) (solution : Solution) :
    sendResult processors nodes side [name] solution =
      deliver processors nodes name (.result (.ofSide side solution)) := by
  show (deliver processors nodes name (.result (.ofSide side solution)) >>= fun _ => pure ()) = _
  exact bind_pure_unit

theorem receives_projection (node : Topology.Node) {id : String} {function : Projection}
    (kind : node.kind = .processor ⟨id, .stage (.projection function) side id⟩)
    (provided : OrderedMap.get? processors node.name =
      some ⟨id, .stage (.projection function) side id⟩)
    (receives : Receives owned view act (sendResult processors later side node.children)) :
    Receives owned view (fun shown solution => act shown (function.project solution))
      (sendResult processors (node :: later) none [node.name]) where
  seen := receives.seen
  sent := by
    intro state solution present
    obtain ⟨after, done, shown, kept⟩ :=
      receives.sentAll [function.project solution] state present
    refine ⟨after, ?_, shown, kept⟩
    rw [sendResult_singleton, deliver_cons_self]
    exact (run_accept_stage kind provided rfl).trans done

def joinView (id : String) (view : RunState → View) (state : RunState) : Store × View :=
  ((OrderedMap.get? state.stores id).getD OrderedMap.empty, view state)

def joinAct (joinType : JoinType) (keys : JoinKeys) (act : View → Solution → View) (side : Side)
    (shown : Store × View) (solution : Solution) : Store × View :=
  let (joined, grown) := Processor.join joinType keys shown.1 side solution
  (grown, joined.foldl act shown.2)

theorem foldl_joinAct (joinType : JoinType) (keys : JoinKeys) (act : View → Solution → View)
    (side : Side) (solutions : List Solution) (shown : Store × View) :
    solutions.foldl (joinAct joinType keys act side) shown =
      ((Processor.joinAll joinType keys shown.1
          (solutions.map (fun solution => (side, solution)))).2,
        (Processor.joinAll joinType keys shown.1
          (solutions.map (fun solution => (side, solution)))).1.foldl act shown.2) := by
  induction solutions generalizing shown with
  | nil => rfl
  | cons solution rest ih =>
    rw [List.foldl_cons, ih]
    simp only [joinAct, List.map_cons, Processor.joinAll, List.foldl_append]

theorem receives_join (node : Topology.Node) {id : String} {joinType : JoinType} {keys : JoinKeys}
    (kind : node.kind = .processor ⟨id, .stage (.join joinType keys) side id⟩)
    (provided : OrderedMap.get? processors node.name =
      some ⟨id, .stage (.join joinType keys) side id⟩)
    (access : id ∈ node.stores) (unowned : id ∉ owned)
    (receives : Receives owned view act (sendResult processors later side node.children))
    (arrival : Side) :
    Receives (id :: owned) (joinView id view) (joinAct joinType keys act arrival)
      (sendResult processors (node :: later) (some arrival) [node.name]) where
  seen := by
    intro first second results stores
    obtain ⟨store, others⟩ := List.forall_mem_cons.mp stores
    rw [joinView, joinView, store, receives.seen first second results others]
  sent := by
    intro state solution present
    obtain ⟨own, others⟩ := List.forall_mem_cons.mp present
    obtain ⟨store, found⟩ := Option.isSome_iff_exists.mp own
    have opened : Stores.open? state.stores node.stores id = some store := by
      rw [Stores.open?, if_pos access, found]
    cases joining : Processor.join joinType keys store arrival solution with
    | mk joined grown =>
      have stored := state.keeps_insert grown (List.mem_cons_self (a := id) (l := owned))
      have processed : Processor.process ⟨id, .stage (.join joinType keys) side id⟩ node.stores
          state.stores (.result (.binary arrival solution)) =
            .ok (joined.map (fun joined => .result (.ofSide side joined)),
              OrderedMap.insert state.stores id grown) := by
        simp only [Processor.process, opened, joining]
      obtain ⟨after, done, shown, kept⟩ := receives.sentAll joined
        ⟨OrderedMap.insert state.stores id grown, state.results⟩
        (fun name member => stored.present name (others name member))
      refine ⟨after, ?_, ?_, stored.trans (kept.mono fun name => List.mem_cons_of_mem id)⟩
      · rw [sendResult_singleton, deliver_cons_self]
        exact (run_accept_stage kind provided processed).trans done
      · -- Above the join, nothing can see that its own store has changed.
        have unchanged : view ⟨OrderedMap.insert state.stores id grown, state.results⟩ =
            view state :=
          receives.seen _ _ rfl fun name member =>
            OrderedMap.get?_insert_of_ne _ _ (fun same => unowned (same ▸ member))
        rw [joinView, joinView, kept.others id unowned, shown, unchanged, found,
          OrderedMap.get?_insert_self]
        simp only [joinAct, Option.getD_some, joining]

/-- Sends a statement to the pattern stages of a plan, from right to left. -/
def sendToPatterns (plan : StageTree) (processors : Processors) (nodes : List Topology.Node)
    (statement : Statement) : Delivery Unit :=
  plan.patternIds.forM (fun id => deliver processors nodes id (.statement statement))

theorem sendToPatterns_append {plan : StageTree} {before nodes : List Topology.Node}
    {statement : Statement} (absent : ∀ id ∈ plan.ids, id ∉ nodeNames before) :
    sendToPatterns plan processors (before ++ nodes) statement =
      sendToPatterns plan processors nodes statement := by
  have same : ∀ ids : List String, (∀ id ∈ ids, id ∉ nodeNames before) →
      ids.forM (fun id => deliver processors (before ++ nodes) id (.statement statement)) =
        ids.forM (fun id => deliver processors nodes id (.statement statement)) := by
    intro ids others
    induction ids with
    | nil => rfl
    | cons id rest ih =>
      obtain ⟨here, below⟩ := List.forall_mem_cons.mp others
      show (deliver processors (before ++ nodes) id (.statement statement) >>=
          fun _ => rest.forM _) =
        (deliver processors nodes id (.statement statement) >>= fun _ => rest.forM _)
      rw [deliver_append here, ih below]
  exact same plan.patternIds fun id member => absent id (plan.patternIds_subset id member)

theorem sendToPatterns_join (node : NodeId) (id : String) (joinType : JoinType) (keys : JoinKeys)
    (left right : StageTree) (nodes : List Topology.Node) (statement : Statement) :
    sendToPatterns (.join node id joinType keys left right) processors nodes statement =
      (sendToPatterns right processors nodes statement >>=
        fun _ => sendToPatterns left processors nodes statement) :=
  List.forM_append

/-- A statement has made a plan yield and remember what its network does. -/
structure Handled {View : Type} (owned : List String) (view : RunState → View)
    (act : View → Solution → View) (plan : StageTree) (statement : Statement)
    (before after : RunState) : Prop where
  shown : view after = ((plan.network before.stores).step statement).1.foldl act (view before)
  network : plan.network after.stores = ((plan.network before.stores).step statement).2
  keeps : RunState.Keeps (plan.joinIds ++ owned) before after

theorem handled_projection {node : NodeId} {id : String} {function : Projection} {inner : StageTree}
    {statement : Statement} {before after : RunState}
    (handled : Handled owned view (fun shown solution => act shown (function.project solution))
      inner statement before after) :
    Handled owned view act (.projection node id function inner) statement before after where
  shown := by
    rw [handled.shown, StageTree.network, Network.step]
    exact List.foldl_map.symm
  network := by
    rw [StageTree.network, handled.network]
    rfl
  keeps := handled.keeps

section Join

variable {node : NodeId} {id : String} {joinType : JoinType} {keys : JoinKeys}
  {left right : StageTree}

theorem disjoint_joinIds (distinct : (StageTree.join node id joinType keys left right).ids.Nodup) :
    List.Disjoint left.joinIds right.joinIds := by
  have apart := List.disjoint_of_nodup_append (List.nodup_cons.mp distinct).2
  exact fun name onLeft onRight =>
    apart (left.joinIds_subset name onLeft) (right.joinIds_subset name onRight)

/-- The joins below a join do not own the stores at and above it. -/
theorem unowned_operands (distinct : (StageTree.join node id joinType keys left right).ids.Nodup)
    (unowned : ∀ name ∈ (StageTree.join node id joinType keys left right).joinIds, name ∉ owned) :
    (∀ name ∈ left.joinIds, name ∉ id :: owned) ∧ ∀ name ∈ right.joinIds, name ∉ id :: owned := by
  have top := (List.nodup_cons.mp distinct).1
  constructor
  · intro name member
    have others := unowned name (by simp [StageTree.joinIds, member])
    have notTop : name ≠ id := fun same =>
      top (same ▸ List.mem_append_left _ (left.joinIds_subset name member))
    exact List.not_mem_cons_of_ne_of_not_mem notTop others
  · intro name member
    have others := unowned name (by simp [StageTree.joinIds, member])
    have notTop : name ≠ id := fun same =>
      top (same ▸ List.mem_append_right _ (right.joinIds_subset name member))
    exact List.not_mem_cons_of_ne_of_not_mem notTop others

theorem handled_join {statement : Statement} {before middle after : RunState}
    (distinct : (StageTree.join node id joinType keys left right).ids.Nodup)
    (unowned : ∀ name ∈ (StageTree.join node id joinType keys left right).joinIds, name ∉ owned)
    (onRight : Handled (id :: owned) (joinView id view) (joinAct joinType keys act .right) right
      statement before middle)
    (onLeft : Handled (id :: owned) (joinView id view) (joinAct joinType keys act .left) left
      statement middle after) :
    Handled owned view act (.join node id joinType keys left right) statement before after := by
  obtain ⟨leftUnowned, rightUnowned⟩ := unowned_operands distinct unowned
  have apart := disjoint_joinIds distinct
  have leftBefore : left.network middle.stores = left.network before.stores :=
    StageTree.network_congr fun name member => onRight.keeps.others name fun inside =>
      (List.mem_append.mp inside).elim (apart member) (leftUnowned name member)
  have rightAfter : right.network after.stores = right.network middle.stores :=
    StageTree.network_congr fun name member => onLeft.keeps.others name fun inside =>
      (List.mem_append.mp inside).elim (fun onLeft => apart onLeft member) (rightUnowned name member)
  have both := onLeft.shown
  rw [onRight.shown, leftBefore, foldl_joinAct, foldl_joinAct] at both
  obtain ⟨stored, shown⟩ := Prod.mk.inj both
  refine ⟨?_, ?_, ?_⟩
  · rw [shown]
    simp only [StageTree.network, Network.step, Arrival.rightFirst, Processor.joinAll_append,
      List.foldl_append]
    rfl
  · rw [StageTree.network, rightAfter, onRight.network, onLeft.network, leftBefore, stored]
    simp only [StageTree.network, Network.step, Arrival.rightFirst, Processor.joinAll_append]
    rfl
  · have kept : ∀ name, (name ∈ right.joinIds ++ id :: owned ∨ name ∈ left.joinIds ++ id :: owned) →
        name ∈ (StageTree.join node id joinType keys left right).joinIds ++ owned := by
      intro name
      simp only [StageTree.joinIds, List.mem_append, List.mem_cons, List.not_mem_nil, or_false]
      tauto
    exact (onRight.keeps.mono fun name member => kept name (Or.inl member)).trans
      (onLeft.keeps.mono fun name member => kept name (Or.inr member))

end Join

theorem run_sendToPatterns (plan : StageTree) (statement : Statement) (distinct : plan.ids.Nodup)
    (provides : Provides processors (plan.wired side children))
    (unowned : ∀ id ∈ plan.joinIds, id ∉ owned)
    (receives : Receives owned view act (sendResult processors later side children))
    (state : RunState)
    (present : ∀ name ∈ plan.joinIds ++ owned, (OrderedMap.get? state.stores name).isSome) :
    ∃ after, (sendToPatterns plan processors (plan.wired side children ++ later) statement).run
        state = .ok () after ∧
      Handled owned view act plan statement state after := by
  induction plan generalizing View owned view act later side children state with
  | pattern node id triple =>
    obtain ⟨after, done, shown, kept⟩ :=
      receives.sentAll (triple.matchStatement statement).toList state present
    refine ⟨after, ?_, shown, rfl, kept⟩
    have alone : sendToPatterns (.pattern node id triple) processors
        ((StageTree.pattern node id triple).wired side children ++ later) statement =
          deliver processors ((StageTree.pattern node id triple).wired side children ++ later) id
            (.statement statement) := bind_pure_unit
    rw [alone, StageTree.wired, List.singleton_append]
    rw [deliver, if_pos rfl]
    exact (run_accept_stage rfl ((provides_cons.mp provides).1 _ rfl) rfl).trans done
  | projection node id function inner ih =>
    let stage : Topology.Node :=
      ⟨id, .processor ⟨id, .stage (.projection function) side id⟩, [inner.id], children, []⟩
    obtain ⟨below, own⟩ := provides_append.mp provides
    have provided := (provides_cons.mp own).1 _ rfl
    obtain ⟨after, done, handled⟩ := ih (List.nodup_cons.mp distinct).2 below unowned
      (receives_projection stage rfl provided receives) state present
    refine ⟨after, ?_, handled_projection handled⟩
    rw [StageTree.wired, List.append_assoc]
    exact done
  | join node id joinType keys left right leftIh rightIh =>
    obtain ⟨leftUnowned, rightUnowned⟩ := unowned_operands distinct unowned
    obtain ⟨top, below⟩ := List.nodup_cons.mp distinct
    have apart := List.disjoint_of_nodup_append below
    obtain ⟨distinctLeft, distinctRight, -⟩ := List.nodup_append.mp below
    have own := unowned id (by simp [StageTree.joinIds])
    obtain ⟨providesRight, providesRest⟩ := provides_append.mp provides
    obtain ⟨providesLeft, providesTop⟩ := provides_append.mp providesRest
    have joins := receives_join ⟨id, .processor ⟨id, .stage (.join joinType keys) side id⟩,
      [left.id, right.id], children, [id]⟩ rfl ((provides_cons.mp providesTop).1 _ rfl)
      (List.mem_singleton.mpr rfl) own receives
    have covered : ∀ name, (name ∈ left.joinIds ∨ name ∈ right.joinIds ∨ name ∈ id :: owned) →
        name ∈ (StageTree.join node id joinType keys left right).joinIds ++ owned := by
      intro name
      simp only [StageTree.joinIds, List.mem_append, List.mem_cons, List.not_mem_nil, or_false]
      tauto
    -- The results of the right operand pass by the stages of the left one.
    have passing : sendResult processors (left.wired (some .left) [id] ++
        (⟨id, .processor ⟨id, .stage (.join joinType keys) side id⟩, [left.id, right.id], children,
          [id]⟩ :: later)) (some .right) [id] =
        sendResult processors (⟨id, .processor ⟨id, .stage (.join joinType keys) side id⟩,
          [left.id, right.id], children, [id]⟩ :: later) (some .right) [id] := by
      funext solution
      rw [sendResult_singleton, sendResult_singleton, deliver_append]
      exact fun member => top (List.mem_append_left _ (StageTree.mem_nodeNames_wired.mp member))
    obtain ⟨middle, doneRight, onRight⟩ := rightIh distinctRight providesRight rightUnowned
      (passing ▸ joins .right) state (fun name member => present name (covered name (by
        rcases List.mem_append.mp member with inside | above
        · exact Or.inr (Or.inl inside)
        · exact Or.inr (Or.inr above))))
    obtain ⟨after, doneLeft, onLeft⟩ := leftIh distinctLeft providesLeft leftUnowned (joins .left)
      middle
      (fun name member => onRight.keeps.present name (present name (covered name (by
        rcases List.mem_append.mp member with inside | above
        · exact Or.inl inside
        · exact Or.inr (Or.inr above)))))
    refine ⟨after, ?_, handled_join distinct unowned onRight onLeft⟩
    rw [sendToPatterns_join, StageTree.wired, List.append_assoc, List.append_assoc]
    apply (run_bind_of_ok doneRight).trans
    rw [sendToPatterns_append]
    · exact doneLeft
    · intro name member inside
      exact apart member (StageTree.mem_nodeNames_wired.mp inside)

end Delivery

namespace StageTree

open Delivery

theorem sendStatement_of_unsourced {processors : Processors} {nodes : List Topology.Node}
    (unsourced : ∀ node ∈ nodes, node.isSource = false) (statement : Statement) :
    sendStatement processors nodes statement = pure () := by
  induction nodes with
  | nil => rfl
  | cons node rest ih =>
    obtain ⟨here, later⟩ := List.forall_mem_cons.mp unsourced
    rw [sendStatement, here, ih later]
    rfl

theorem sendStatement_source {processors : Processors} {source : Topology.Node}
    {rest : List Topology.Node} (first : source.isSource = true)
    (unsourced : ∀ node ∈ rest, node.isSource = false) (statement : Statement) :
    sendStatement processors (source :: rest) statement =
      source.children.forM (fun child => deliver processors rest child (.statement statement)) := by
  rw [sendStatement, if_pos first, sendStatement_of_unsourced unsourced]
  exact bind_pure_unit

theorem isSource_wired (side : Option Side) (children : List String) (plan : StageTree) :
    ∀ node ∈ plan.wired side children, node.isSource = false := by
  induction plan generalizing side children with
  | pattern => exact List.forall_mem_singleton.mpr rfl
  | projection _ _ _ _ ih =>
    exact List.forall_mem_append.mpr ⟨ih _ _, List.forall_mem_singleton.mpr rfl⟩
  | join _ _ _ _ _ _ left right =>
    exact List.forall_mem_append.mpr ⟨right _ _,
      List.forall_mem_append.mpr ⟨left _ _, List.forall_mem_singleton.mpr rfl⟩⟩

theorem receives_results {processors : Processors} (plan : StageTree) (resultTopic : Topic)
    (provided : OrderedMap.get? processors formatterName = some ⟨formatterName, .formatter⟩) :
    Receives [] RunState.results (fun results solution => results ++ [solution])
      (sendResult processors [⟨formatterName, .processor ⟨formatterName, .formatter⟩, [plan.id],
        [sinkName], []⟩, ⟨sinkName, .sink resultTopic, [formatterName], [], []⟩] none
          [formatterName]) where
  seen := fun _ _ same _ => same
  sent := by
    intro state solution _
    refine ⟨{ state with results := state.results ++ [solution] }, ?_, rfl, fun _ _ => rfl,
      fun _ present => present⟩
    let formatter : Topology.Node :=
      ⟨formatterName, .processor ⟨formatterName, .formatter⟩, [plan.id], [sinkName], []⟩
    have kind : formatter.kind = .processor ⟨formatterName, .formatter⟩ := rfl
    have formatted : Processor.process ⟨formatterName, .formatter⟩ formatter.stores state.stores
        (.result (.unary solution)) = .ok ([.solution solution], state.stores) := rfl
    rw [sendResult_singleton, deliver_cons_self]
    exact run_accept_processor kind provided formatted

theorem pipe_handled (plan : StageTree)
    (distinct : (sourceName :: formatterName :: sinkName :: plan.ids).Nodup)
    (statementTopic resultTopic : String) (statement : Statement) (state : RunState)
    (present : ∀ id ∈ plan.joinIds, (OrderedMap.get? state.stores id).isSome) :
    ∃ after, (plan.topology statementTopic resultTopic).pipe statement state = (.ok (), after) ∧
      Handled [] RunState.results (fun results solution => results ++ [solution]) plan statement
        state after := by
  obtain ⟨-, -, -, distinctIds⟩ := nodup_ends.mp distinct
  obtain ⟨-, provides⟩ := provides_cons.mp
    (provides_processors (nodup_nodeNames_topology distinct statementTopic resultTopic))
  obtain ⟨stages, formats⟩ := provides_append.mp provides
  obtain ⟨after, done, handled⟩ := run_sendToPatterns plan statement distinctIds stages
    (fun _ _ => List.not_mem_nil) (receives_results plan ⟨resultTopic, .string, .solution⟩
      ((provides_cons.mp formats).1 _ rfl)) state (by simpa using present)
  refine ⟨after, ?_, handled⟩
  have ends : ∀ node ∈ [(⟨formatterName, .processor ⟨formatterName, .formatter⟩, [plan.id],
      [sinkName], []⟩ : Topology.Node),
      ⟨sinkName, .sink ⟨resultTopic, .string, .solution⟩, [formatterName], [], []⟩],
        node.isSource = false := by
    simp [Node.isSource]
  have unsourced := List.forall_mem_append.mpr ⟨isSource_wired none [formatterName] plan, ends⟩
  have sent : (sendStatement (plan.topology statementTopic resultTopic).processors
      (plan.topology statementTopic resultTopic).nodes statement).run state = .ok () after := by
    rw [topology, sendStatement_source rfl unsourced]
    exact done
  rw [pipe, sent]

/-- A statement pushed through the topology of a plan yields what the network of the plan does. -/
theorem pipe_topology (plan : StageTree)
    (distinct : (sourceName :: formatterName :: sinkName :: plan.ids).Nodup)
    (statementTopic resultTopic : String) (statement : Statement) (state : RunState)
    (present : ∀ id ∈ plan.joinIds, (OrderedMap.get? state.stores id).isSome) :
    ∃ after, (plan.topology statementTopic resultTopic).pipe statement state = (.ok (), after) ∧
      after.results = state.results ++ ((plan.network state.stores).step statement).1 ∧
      plan.network after.stores = ((plan.network state.stores).step statement).2 ∧
      ∀ id ∈ plan.joinIds, (OrderedMap.get? after.stores id).isSome := by
  obtain ⟨after, piped, handled⟩ :=
    plan.pipe_handled distinct statementTopic resultTopic statement state present
  refine ⟨after, piped, ?_, handled.network,
    fun id member => handled.keeps.present id (present id member)⟩
  rw [handled.shown, List.foldl_append_eq_append, ← List.flatMap_def, List.flatMap_singleton']

end StageTree

end ContinuousQuery
