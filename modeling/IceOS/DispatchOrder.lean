import IceOS.Interleaving
import IceOS.RunOutcomes

/-! In which order nodes are dispatched, whatever the interleaving: a level dispatches each of its nodes
once, after the nodes they depend on. Only recursive flows run a node again. -/
namespace IceOS

open ActionRuns Interleaved

/-- What holds of the dispatches of an interleaved run. A node sees what lower levels have recorded,
what recursive flows have, and what was filed under the text of an exception. -/
structure Orderly {σ : Type} (wf : Workflow) (x : Interleaved σ) : Prop where
  once : (x.dispatches.map (·.id)).Nodup
  ready : ∀ d ∈ x.dispatches, ∃ node, wf.nodes.get? d.id = some node ∧
    ∀ dep ∈ node.dependencies, dep ∈ d.seen.keys ∨ dep ∈ d.raised.map Prod.fst
  below : ∀ d ∈ x.dispatches, ∀ id ∈ d.seen.keys,
    wf.graph.level id < wf.graph.level d.id ∨ id ∈ d.reruns ∨ id ∈ d.raised.map (·.2.text)

section

variable {σ : Type} {wf : Workflow} {eng : Engine σ} {limit : Nat} {x y : Interleaved σ}

/-- What the levels in `done` have left behind. -/
structure Settled (done : List (List String)) (x : Interleaved σ) : Prop where
  cache : AllActive x.state.activeCache
  settled : ∀ id ∈ done.flatten, id ∈ x.state.results.keys ∨ id ∈ x.raised.map Prod.fst
  known : ∀ id ∈ x.state.results.keys,
    id ∈ done.flatten ∨ id ∈ x.reruns ∨ id ∈ x.raised.map (·.2.text)

/-- The coroutines of a level, one for each of its ids. -/
structure Tasks (wf : Workflow) (ids : List String) (done : List (List String))
    (tasks : List (NodeConfig × Coroutine)) (x : Interleaved σ) : Prop where
  ids : tasks.map (·.1.id) = ids
  own : ∀ task ∈ tasks, wf.nodes.get? task.1.id = some task.1
  dispatched : ∀ d ∈ x.dispatches, d.id ∈ done.flatten ∨ ∃ task ∈ tasks, task.1.id = d.id ∧ task.2 ≠ .waiting
  raised : ∀ task ∈ tasks, ∀ e, task.2 = .ended (.error e) → (task.1.id,e) ∈ x.raised

/-- Where an interleaved run has got to. -/
inductive Located (wf : Workflow) (x : Interleaved σ) : Prop where
  | between (done levels : List (List String)) (index : Nat) (phase : x.phase = .between index levels)
      (parts : wf.levels = done ++ levels) (settled : Settled done x)
      (dispatched : ∀ d ∈ x.dispatches, d.id ∈ done.flatten)
  | level (done rest : List (List String)) (ids : List String) (index : Nat) (tasks : List (NodeConfig × Coroutine))
      (phase : x.phase = .level index rest tasks) (parts : wf.levels = done ++ ids :: rest)
      (settled : Settled done x) (tasks : Tasks wf ids done tasks x)
  | ended (phase : x.phase = .ended)

/-- Gating lets every node of an acyclic graph pass, if it answers. -/
theorem activeIds_all {graph : DependencyGraph} (acyclic : graph.graph.Acyclic) {ids active : List String}
    {cache cache' : ActiveCache} (all : AllActive cache)
    (gated : Workflow.activeIds graph limit ids cache = some (active,cache')) : active = ids ∧ AllActive cache' := by
  have grounded (cache : ActiveCache) : Grounded graph cache := by
    intro id _ behind
    obtain ⟨n,cycle,_⟩ := behind
    exact acyclic n cycle
  induction ids generalizing cache active with
  | nil =>
    cases gated
    exact ⟨rfl,all⟩
  | cons id rest ih =>
    simp only [Workflow.activeIds] at gated
    cases asked : isNodeActive graph limit id cache with
    | none => simp [asked] at gated
    | some answer =>
      obtain ⟨found,next⟩ := answer
      obtain ⟨rfl,all',_⟩ := isNodeActive_grounded graph limit id cache found next all (grounded cache) asked
      simp only [asked,Option.map_eq_some_iff,if_true] at gated
      obtain ⟨⟨ids',last⟩,later,same⟩ := gated
      cases same
      obtain ⟨rfl,all''⟩ := ih all' later
      exact ⟨rfl,all''⟩

/-- The tasks of a level that is about to run are its nodes. -/
theorem waiting_ids {ids : List String} (known : ∀ id ∈ ids, id ∈ wf.nodes.keys) :
    (((ids.filterMap wf.nodes.get?).map (·,Coroutine.waiting)).map (·.1.id)) = ids := by
  induction ids with
  | nil => rfl
  | cons id rest ih =>
    obtain ⟨node,found⟩ := Option.isSome_iff_exists.mp ((wf.nodes.mem_keys id).mp (known id List.mem_cons_self))
    rw [List.filterMap_cons,found]
    simp only [List.map_cons]
    rw [ih fun other member => known other (List.mem_cons_of_mem id member),wf.own id node found]

theorem located_enter (acyclic : wf.graph.graph.Acyclic) {index : Nat} {done levels : List (List String)}
    (phase : x.phase = .between index levels) (parts : wf.levels = done ++ levels) (settled : Settled done x)
    (dispatched : ∀ d ∈ x.dispatches, d.id ∈ done.flatten) : Located wf (enter wf limit x index levels) := by
  cases levels with
  | nil => exact .ended rfl
  | cons ids rest =>
    simp only [enter]
    cases wf.depthStop index with
    | some text => exact .ended rfl
    | none =>
      cases gated : Workflow.activeIds wf.graph limit ids x.state.activeCache with
      | none => exact .ended rfl
      | some active =>
        obtain ⟨active,cache⟩ := active
        obtain ⟨rfl,all⟩ := activeIds_all acyclic settled.cache gated
        have known : ∀ id ∈ active, id ∈ wf.nodes.keys := fun id member =>
          (wf.covers id).mp (by rw [parts]; simp [member])
        refine .level done rest active index _ rfl parts ⟨all,settled.settled,settled.known⟩
          ⟨waiting_ids known,?_,fun d member => .inl (dispatched d member),?_⟩
        · intro task member
          obtain ⟨node,inside,rfl⟩ := List.mem_map.mp member
          obtain ⟨id,_,found⟩ := List.mem_filterMap.mp inside
          rw [← wf.own id node found] at found
          exact found
        · intro task member e ended
          obtain ⟨node,inside,rfl⟩ := List.mem_map.mp member
          cases ended

theorem set_task_mem {tasks : List (NodeConfig × Coroutine)} {i : Nat} {old new : NodeConfig × Coroutine}
    (here : tasks[i]? = some old) : new ∈ tasks.set i new := by
  obtain ⟨inside,_⟩ := List.getElem?_eq_some_iff.mp here
  exact List.mem_iff_getElem.mpr ⟨i,by simpa using inside,by simp⟩

theorem mem_set_task {tasks : List (NodeConfig × Coroutine)} {i : Nat} {old new task : NodeConfig × Coroutine}
    (here : tasks[i]? = some old) (member : task ∈ tasks) : task = old ∨ task ∈ tasks.set i new := by
  obtain ⟨inside,same⟩ := List.getElem?_eq_some_iff.mp here
  obtain ⟨j,inside',rfl⟩ := List.mem_iff_getElem.mp member
  by_cases moved : j = i
  · subst moved
    exact .inl same
  · right
    exact List.mem_iff_getElem.mpr ⟨j,by simpa using inside',by simp [Ne.symm moved]⟩

/-- One coroutine has moved on. -/
theorem Tasks.move {ids : List String} {done : List (List String)} {tasks : List (NodeConfig × Coroutine)} {i : Nat}
    {node : NodeConfig} {c c' : Coroutine} (known : Tasks wf ids done tasks x) (here : tasks[i]? = some (node,c))
    (started : c' ≠ .waiting) (dispatches : ∀ d ∈ y.dispatches, d ∈ x.dispatches ∨ d.id = node.id)
    (raised : ∀ r ∈ x.raised, r ∈ y.raised) (escaped : ∀ e, c' = .ended (.error e) → (node.id,e) ∈ y.raised) :
    Tasks wf ids done (tasks.set i (node,c')) y := by
  have old : (node,c) ∈ tasks := List.mem_of_getElem? here
  constructor
  · rw [← known.ids,List.map_set]
    obtain ⟨inside,same⟩ := List.getElem?_eq_some_iff.mp here
    refine List.ext_getElem (by simp) fun j _ _ => ?_
    by_cases moved : i = j
    · subst moved
      simp [same]
    · simp [moved]
  · intro task member
    rcases List.mem_or_eq_of_mem_set member with before | rfl
    · exact known.own task before
    · exact known.own (node,c) old
  · intro d member
    rcases dispatches d member with before | same
    · rcases known.dispatched d before with lower | ⟨task,inside,same,active⟩
      · exact .inl lower
      · right
        rcases mem_set_task here inside with rfl | still
        · exact ⟨(node,c'),set_task_mem here,same,started⟩
        · exact ⟨task,still,same,active⟩
    · exact .inr ⟨(node,c'),set_task_mem here,same.symm,started⟩
  · intro task member e ended
    rcases List.mem_or_eq_of_mem_set member with before | rfl
    · exact raised _ (known.raised task before e ended)
    · exact escaped e ended

theorem Settled.raise {done : List (List String)} (settled : Settled done x)
    (cache : y.state.activeCache = x.state.activeCache) (results : y.state.results = x.state.results)
    (reruns : y.reruns = x.reruns) (raised : ∀ r ∈ x.raised, r ∈ y.raised) : Settled done y := by
  constructor
  · rw [cache]
    exact settled.cache
  · intro id member
    rw [results]
    rcases settled.settled id member with recorded | escaped
    · exact .inl recorded
    · obtain ⟨r,inside,rfl⟩ := List.mem_map.mp escaped
      exact .inr (List.mem_map_of_mem (raised r inside))
  · intro id member
    rw [results] at member
    rw [reruns]
    rcases settled.known id member with lower | rerun | filed
    · exact .inl lower
    · exact .inr (.inl rerun)
    · obtain ⟨r,inside,rfl⟩ := List.mem_map.mp filed
      exact .inr (.inr (List.mem_map_of_mem (f := fun r => r.2.text) (raised r inside)))

/-- A node that is about to be dispatched is in good order. -/
theorem Orderly.dispatch (rising : ∀ id node, wf.nodes.get? id = some node → ∀ dep ∈ node.dependencies,
      wf.graph.level dep < wf.graph.level id)
    (order : (∀ id node, wf.nodes.get? id = some node → ∀ dep ∈ node.dependencies, dep ∈ wf.levels.flatten) ∧
      wf.levels.Pairwise fun a b => ∀ x ∈ a, ∀ y ∈ b, wf.graph.level x < wf.graph.level y)
    (orderly : Orderly wf x) {done rest : List (List String)} {ids : List String}
    {tasks : List (NodeConfig × Coroutine)} (parts : wf.levels = done ++ ids :: rest) (settled : Settled done x)
    (known : Tasks wf ids done tasks x) {i : Nat} {node : NodeConfig} (here : tasks[i]? = some (node,.waiting))
    (new : y.dispatches = x.dispatches ++ [⟨node.id,x.state.results,x.raised,x.reruns⟩]) : Orderly wf y := by
  have inside : (node,Coroutine.waiting) ∈ tasks := List.mem_of_getElem? here
  have own : node.id ∈ ids := by
    rw [← known.ids]
    exact List.mem_map_of_mem (f := fun task : NodeConfig × Coroutine => task.1.id) inside
  have distinct := wf.distinct
  have levels := order.2
  rw [parts,List.pairwise_append,List.pairwise_cons] at levels
  rw [parts,List.flatten_append,List.flatten_cons,List.nodup_append] at distinct
  constructor
  · rw [new,List.map_append,List.nodup_append]
    refine ⟨orderly.once,List.nodup_singleton _,?_⟩
    rintro id member _ single rfl
    rw [List.mem_singleton.mp single] at member
    obtain ⟨d,before,same⟩ := List.mem_map.mp member
    rcases known.dispatched d before with lower | ⟨task,inside',same',active⟩
    · exact distinct.2.2 d.id lower node.id (List.mem_append_left _ own) same
    · -- the ids of a level are distinct, so this is the waiting coroutine itself
      have nodup : (tasks.map (·.1.id)).Nodup := known.ids ▸ (List.nodup_append.mp distinct.2.1).1
      have equal := List.inj_on_of_nodup_map nodup inside' inside (same'.trans same)
      rw [equal] at active
      exact active rfl
  · intro d member
    rw [new] at member
    rcases List.mem_append.mp member with before | single
    · exact orderly.ready d before
    · rw [List.mem_singleton.mp single]
      refine ⟨node,known.own _ inside,fun dep depends => ?_⟩
      have lower := rising node.id node (known.own _ inside) dep depends
      have placed := order.1 node.id node (known.own _ inside) dep depends
      rw [parts,List.flatten_append,List.flatten_cons,List.mem_append,List.mem_append] at placed
      rcases placed with early | same | late
      · exact settled.settled dep early
      · have level := wf.flat ids (by rw [parts]; simp) dep same node.id own
        omega
      · obtain ⟨later,member,inside⟩ := List.mem_flatten.mp late
        have higher := levels.2.1.1 later member node.id own dep inside
        omega
  · intro d member
    rw [new] at member
    rcases List.mem_append.mp member with before | single
    · exact orderly.below d before
    · rw [List.mem_singleton.mp single]
      intro id seen
      rcases settled.known id seen with early | rerun | filed
      · obtain ⟨lower,member,inside⟩ := List.mem_flatten.mp early
        exact .inl (levels.2.2 lower member ids List.mem_cons_self id inside node.id own)
      · exact .inr (.inl rerun)
      · exact .inr (.inr filed)

/-- The gather has returned once every coroutine has ended, with what they ended with. -/
theorem outcomes?_spec {tasks : List (NodeConfig × Coroutine)}
    {outcomes : List (String × Except Exn NodeExecutionResult)} (all : outcomes? tasks = some outcomes) :
    (∀ task ∈ tasks, ∃ outcome, task.2 = .ended outcome) ∧
      ∀ entry, entry ∈ outcomes ↔ ∃ task ∈ tasks, task.1.id = entry.1 ∧ task.2 = .ended entry.2 := by
  induction tasks generalizing outcomes with
  | nil =>
    cases all
    simp
  | cons task rest ih =>
    obtain ⟨node,c⟩ := task
    rw [outcomes?_cons] at all
    obtain ⟨outcome,own,all⟩ := Option.bind_eq_some_iff.mp all
    obtain ⟨others,later,rfl⟩ := Option.map_eq_some_iff.mp all
    obtain ⟨ended,entries⟩ := ih later
    cases c with
    | waiting | dispatched => cases own
    | ended outcome' =>
      cases own
      refine ⟨List.forall_mem_cons.mpr ⟨⟨outcome,rfl⟩,ended⟩,fun entry => ?_⟩
      rw [List.mem_cons,entries entry]
      constructor
      · rintro (rfl | ⟨task,inside,same⟩)
        · exact ⟨_,List.mem_cons_self,rfl,rfl⟩
        · exact ⟨task,List.mem_cons_of_mem _ inside,same⟩
      · rintro ⟨task,inside,same,ended⟩
        rcases List.mem_cons.mp inside with rfl | later
        · cases ended
          exact .inl (by rw [same])
        · exact .inr ⟨task,later,same,ended⟩

/-- Recursive flows add results only under the ids of nodes they run. -/
theorem flowed_keys {levelResults : Results} {s t : RunState σ}
    (did : wf.handleRecursiveFlows eng limit levelResults s = .ok t) :
    t.activeCache = s.activeCache ∧ (∀ id ∈ s.results.keys, id ∈ t.results.keys) ∧
      ∀ id ∈ t.results.keys, id ∈ s.results.keys ∨ id ∈ (t.history.drop s.history.length).map Attempt.id := by
  have recursed : Workflow.Recurses s t := by
    cases limit with
    | zero =>
      simp only [Workflow.handleRecursiveFlows] at did
      cases pending : wf.pendingRecursions levelResults.items with
      | nil =>
        rw [pending] at did
        cases did
        exact .refl s
      | cons first rest =>
        rw [pending] at did
        cases did
    | succ limit =>
      obtain ⟨u,did',recursed⟩ := Workflow.handleRecursiveFlows_recurses wf eng (Nat.succ_pos limit) levelResults s
      rw [did'] at did
      cases did
      exact recursed
  obtain ⟨atts,attempts,statuses⟩ := recursed
  have present (results : Results) (id : String) : id ∈ results.keys ↔ (status results id).isSome = true := by
    simp [status,results.mem_keys]
  refine ⟨attempts.cache,fun id member => ?_,fun id member => ?_⟩
  · rw [present] at member ⊢
    rw [statuses id]
    cases (latest atts id).map (· == .succeeded) with
    | none => exact member
    | some b => rfl
  · rw [attempts.history,List.drop_left]
    rw [present,statuses id] at member
    by_cases tried : id ∈ atts.map Attempt.id
    · exact .inr tried
    · left
      rw [(latest_eq_none atts id).mpr tried] at member
      exact (present s.results id).mpr member

/-- What is filed for a level is filed under its ids or under the texts of exceptions. -/
theorem Settled.book {done : List (List String)} {ids : List String} {tasks : List (NodeConfig × Coroutine)}
    (settled : Settled done x) (known : Tasks wf ids done tasks x)
    {outcomes : List (String × Except Exn NodeExecutionResult)} (all : outcomes? tasks = some outcomes)
    {flowed t : RunState σ} (did : wf.handleRecursiveFlows eng limit
      (.ofList (outcomes.map Workflow.fileOutcome)) x.state = .ok flowed)
    (books : Workflow.Books flowed t (OrderedDict.ofList (outcomes.map Workflow.fileOutcome)).items [])
    (state : y.state = t) (raised : y.raised = x.raised)
    (reruns : y.reruns = x.reruns ++ (flowed.history.drop x.state.history.length).map Attempt.id) :
    Settled (done ++ [ids]) y := by
  obtain ⟨cache,kept,added⟩ := flowed_keys did
  have recorded (id : String) : id ∈ y.state.results.keys ↔
      id ∈ flowed.results.keys ∨ id ∈ (outcomes.map Workflow.fileOutcome).map Prod.fst := by
    rw [state,books.results,OrderedDict.mem_keys_update]
    exact or_congr_right (OrderedDict.mem_keys_ofList _ _)
  constructor
  · rw [state]
    exact books.cache (cache ▸ settled.cache)
  · intro id member
    rw [recorded,raised]
    rw [List.flatten_append,List.mem_append] at member
    rcases member with lower | same
    · rcases settled.settled id lower with old | escaped
      · exact .inl (.inl (kept id old))
      · exact .inr escaped
    · rw [List.flatten_singleton,← known.ids] at same
      obtain ⟨task,inside,rfl⟩ := List.mem_map.mp same
      obtain ⟨outcome,ended⟩ := (outcomes?_spec all).1 task inside
      cases outcome with
      | ok r =>
        have filed : (task.1.id,Except.ok r) ∈ outcomes := ((outcomes?_spec all).2 _).mpr ⟨task,inside,rfl,ended⟩
        exact .inl (.inr (List.mem_map.mpr ⟨_,List.mem_map_of_mem filed,rfl⟩))
      | error e => exact .inr (List.mem_map_of_mem (f := Prod.fst) (known.raised task inside e ended))
  · intro id member
    rw [recorded] at member
    rw [raised,reruns]
    rcases member with old | filed
    · rcases added id old with before | rerun
      · rcases settled.known id before with lower | rerun | filed
        · exact .inl (by rw [List.flatten_append]; exact List.mem_append_left _ lower)
        · exact .inr (.inl (List.mem_append_left _ rerun))
        · exact .inr (.inr filed)
      · exact .inr (.inl (List.mem_append_right _ rerun))
    · obtain ⟨entry,inside,rfl⟩ := List.mem_map.mp filed
      obtain ⟨⟨id,outcome⟩,member,rfl⟩ := List.mem_map.mp inside
      obtain ⟨task,inside',same,ended⟩ := ((outcomes?_spec all).2 _).mp member
      cases outcome with
      | ok r =>
        left
        rw [List.flatten_append,List.flatten_singleton,← known.ids]
        exact List.mem_append_right _ (List.mem_map.mpr ⟨task,inside',same⟩)
      | error e => exact .inr (.inr (List.mem_map.mpr ⟨_,known.raised task inside' e ended,rfl⟩))

theorem located_leave (unmetered : ∀ total, wf.tokenStop total = none) {done rest : List (List String)}
    {ids : List String} {index : Nat} {tasks : List (NodeConfig × Coroutine)}
    (parts : wf.levels = done ++ ids :: rest) (settled : Settled done x) (known : Tasks wf ids done tasks x)
    {outcomes : List (String × Except Exn NodeExecutionResult)} (all : outcomes? tasks = some outcomes) :
    Located wf (leave wf eng limit x index rest outcomes) := by
  simp only [leave]
  cases did : wf.handleRecursiveFlows eng limit (.ofList (outcomes.map Workflow.fileOutcome)) x.state with
  | error e => exact .ended rfl
  | ok flowed =>
    simp only [Workflow.bookLevel]
    have whole := bookEntries_totals wf (OrderedDict.ofList (outcomes.map Workflow.fileOutcome)).items flowed
    rcases Workflow.bookEntries_cases wf (OrderedDict.ofList (outcomes.map Workflow.fileOutcome)).items flowed with
      ⟨t,booked,books,_⟩ | ⟨t,_,_,booked,_⟩ | ⟨e,t,booked,_⟩
    · rw [booked]
      simp only
      rcases Workflow.goOn_cases wf t with next | stop
      · rw [next]
        refine .between (done ++ [ids]) rest (index + 1) rfl (by simp [parts])
          (settled.book known all did books rfl rfl rfl) fun d member => ?_
        rw [List.flatten_append,List.flatten_singleton,← known.ids]
        rcases known.dispatched d member with lower | ⟨task,inside,same,_⟩
        · exact List.mem_append_left _ lower
        · exact List.mem_append_right _ (List.mem_map.mpr ⟨task,inside,same⟩)
      · rw [stop]
        exact .ended rfl
    · rw [booked] at whole
      obtain ⟨total,_,refused⟩ := whole
      exact absurd (unmetered total) refused
    · rw [booked]
      exact .ended rfl

/-- A turn of the run of a constructed workflow. -/
theorem orderly_step (acyclic : wf.graph.graph.Acyclic) (unmetered : ∀ total, wf.tokenStop total = none)
    (order : (∀ id node, wf.nodes.get? id = some node → ∀ dep ∈ node.dependencies, dep ∈ wf.levels.flatten) ∧
      wf.levels.Pairwise fun a b => ∀ x ∈ a, ∀ y ∈ b, wf.graph.level x < wf.graph.level y)
    {turn : Turn σ} (orderly : Orderly wf x) (located : Located wf x)
    (stepped : Interleaved.step wf eng limit x turn = some y) :
    Orderly wf y ∧ Located wf y := by
  have kept (dispatches : y.dispatches = x.dispatches) : Orderly wf y :=
    ⟨by rw [dispatches]; exact orderly.once,by rw [dispatches]; exact orderly.ready,
      by rw [dispatches]; exact orderly.below⟩
  cases located with
  | ended phase => simp [Interleaved.step,phase] at stepped
  | between done levels index phase parts settled dispatched =>
    cases turn with
    | start | finish | leave => simp [Interleaved.step,phase] at stepped
    | enter =>
      have same : enter wf limit x index levels = y := by simpa [Interleaved.step,phase] using stepped
      have located := @located_enter _ _ limit _ acyclic _ _ _ phase parts settled dispatched
      rw [same] at located
      refine ⟨kept ?_,located⟩
      rw [← same]
      cases levels with
      | nil => rfl
      | cons ids rest =>
        simp only [enter]
        cases wf.depthStop index with
        | some text => rfl
        | none => cases Workflow.activeIds wf.graph limit ids x.state.activeCache <;> rfl
  | level done rest ids index tasks phase parts settled known =>
    cases turn with
    | enter => simp [Interleaved.step,phase] at stepped
    | leave =>
      obtain ⟨outcomes,all,rfl⟩ : ∃ outcomes, outcomes? tasks = some outcomes ∧
          leave wf eng limit x index rest outcomes = y := by
        simpa [Interleaved.step,phase] using stepped
      refine ⟨kept ?_,located_leave unmetered parts settled known all⟩
      simp only [leave]
      split
      · rfl
      · split
        · split <;> rfl
        · split <;> rfl
        · rfl
        · rfl
        · rfl
    | start i =>
      simp only [Interleaved.step,phase] at stepped
      split at stepped
      · next node here =>
        simp only [start] at stepped
        split at stepped
        · next e failed =>
          cases stepped
          have more : ∀ r ∈ x.raised, r ∈ x.raised ++ [(node.id,e)] := fun r => List.mem_append_left _
          refine ⟨kept rfl,.level done rest ids index _ rfl parts (settled.raise rfl rfl rfl more)
            (known.move here (by simp) (fun d member => .inl member) more ?_)⟩
          rintro e' same
          cases same
          exact List.mem_append_right _ List.mem_cons_self
        · next base built =>
          cases stepped
          refine ⟨orderly.dispatch (wf.rising acyclic) order parts settled known here rfl,
            .level done rest ids index _ rfl parts (settled.raise rfl rfl rfl fun r member => member)
              (known.move here (by simp) ?_ (fun r member => member) (by simp))⟩
          intro d member
          rcases List.mem_append.mp member with before | single
          · exact .inl before
          · exact .inr (by rw [List.mem_singleton.mp single])
      · cases stepped
    | finish i outcome world =>
      simp only [Interleaved.step,phase] at stepped
      split at stepped
      · next node here =>
        cases stepped
        have more : ∀ r ∈ x.raised, r ∈ x.raised ++ escaping node.id outcome := fun r => List.mem_append_left _
        refine ⟨kept rfl,.level done rest ids index _ rfl parts (settled.raise rfl rfl rfl more)
          (known.move here (by simp) (fun d member => .inl member) more ?_)⟩
        intro e same
        cases same
        exact List.mem_append_right _ List.mem_cons_self
      · cases stepped

end

/-- Whatever the interleaving, the failure policy and the depth limits. -/
theorem dispatches_orderly {σ : Type} (nx : Networkx) (checks : List NodeConfig → Except Exn Unit)
    (settings : Settings) (nodes : List NodeConfig) (wf : Workflow)
    (made : Workflow.new nx checks settings nodes = .ok wf) (acyclic : wf.graph.graph.Acyclic)
    (ceiling : wf.tokenCeiling = none) (guard : wf.tokenGuard = none) (eng : Engine σ) (limit : Nat) (world : σ)
    (actions : List (Turn σ)) (x : Interleaved σ)
    (ran : run (Interleaved.step wf eng limit) actions (initial wf world) = some x) : Orderly wf x := by
  have unmetered (total : Nat) : wf.tokenStop total = none := by simp [Workflow.tokenStop,ceiling,guard]
  have preserved : ∀ x turn y, Orderly wf x ∧ Located wf x → Interleaved.step wf eng limit x turn = some y →
      Orderly wf y ∧ Located wf y :=
    fun x turn y inv stepped => orderly_step acyclic unmetered (Workflow.new_order made) inv.1 inv.2 stepped
  have start : Orderly wf (initial wf world) ∧ Located wf (initial wf world) :=
    ⟨⟨List.nodup_nil,fun d member => absurd member List.not_mem_nil,fun d member => absurd member List.not_mem_nil⟩,
      .between [] wf.levels 1 rfl rfl ⟨allActive_empty,by simp,by simp [initial,Workflow.initialState]⟩
        fun d member => absurd member List.not_mem_nil⟩
  exact (run_always preserved ran start).1

/-- The executor of `review` asks for another round, the others just answer. -/
def revisingEngine : Engine Unit where
  executeNode node _ w := (.ok { output := .dict [("_can_recurse",.bool (node.type = .recursive))] },w)
  currentContext _ := none
  stalls _ _ := false

def revisionNodes : List NodeConfig :=
  [{ id := "draft",type := .tool },
   { id := "review",type := .recursive,dependencies := ["draft"],recursiveSources := ["draft"] }]

def revision : Workflow := .ofNodes {} revisionNodes (by decide +kernel)

def revisionTurns : List (Turn Unit) :=
  [.enter,.start 0,.finish 0 (.ok {}) (),.leave,.enter,.start 0]

theorem revision_acyclic : revision.graph.graph.Acyclic :=
  DirectedGraph.acyclic_of_numbering _ (fun id => if id = "draft" then 0 else 1) (by decide +kernel)

theorem revision_orderly : ∃ x, run (Interleaved.step revision revisingEngine 10) revisionTurns (initial revision ()) = some x ∧
    Orderly revision x := by
  have whole : (run (Interleaved.step revision revisingEngine 10) revisionTurns (initial revision ())).isSome = true := by
    decide +kernel
  obtain ⟨x,ran⟩ := Option.isSome_iff_exists.mp whole
  exact ⟨x,ran,dispatches_orderly .direct (fun _ => .ok ()) {} revisionNodes revision (Workflow.ofNodes_made _ _ _)
    revision_acyclic
    rfl rfl revisingEngine 10 () revisionTurns x ran⟩

/-- In an acyclic workflow the recursive flow dispatches `draft` a second time. -/
theorem revision_repeats_draft :
    revision.graph.graph.Acyclic ∧ (revisionNodes.map (·.id)).Nodup ∧
      revision.tokenCeiling = none ∧ revision.tokenGuard = none ∧
      ((revision.runAll revisingEngine 10 ()).state.history.map fun a => (a.id,a.ending)) =
        [("draft",.succeeded),("review",.succeeded),("draft",.succeeded)] :=
  ⟨DirectedGraph.acyclic_of_numbering _ (fun id => if id = "draft" then 0 else 1) (by decide +kernel),
    by decide,rfl,rfl,by decide +kernel⟩

end IceOS
