import IceOS.ExecutionApi

/-! Whether the status of an execution is final once it is terminal, and the same in memory, in the
database and in Redis. Task and cancel requests write it without looking at what is there. -/
namespace IceOS

open ActionRuns ExecutionStatus

variable {κ : Type}

/-- Terminal statuses of `s` are those of `t`. -/
structure Kept (s t : Execution κ) : Prop where
  memory : s.memory.status.Terminal → t.memory.status = s.memory.status
  row : ∀ v, v.Terminal → s.row = some v → t.row = some v
  redis : ∀ v, v.Terminal → s.redis = some v → t.redis = some v

/-- No step of the task or of a cancel request is pending. -/
def Quiescent (s : Execution κ) : Prop :=
  s.stage = .ended ∧ ∀ j, s.cancels j = .arrived ∨ s.cancels j = .ended

def Agrees (s : Execution κ) : Prop :=
  s.row = some s.memory.status ∧ s.redis = some s.memory.status

/-- Nothing is completed, and the task still has to save how it ended, or has failed. -/
def Cancellable (s : Execution κ) : Prop :=
  s.memory.status ≠ .completed ∧ (s.stage = .ended → s.memory.status = .failed)

/-- A step that does not break the status. What is not final is not written over a cancellation, a
cancelled run does not complete, a completed one is not cancelled, and the database and Redis take
the final status. A task without an orchestrator leaves the three places as they are. -/
@[grind =] def Unhindered (s : Execution κ) : ExecutionAction κ → Prop
  | .insert ok => ok = true
  | .announce ok => ok = true → s.redis ≠ some .failed
  | .begin true => s.memory.status ≠ .failed
  | .begin false => Agrees s
  | .fetch ok => s.stage = .saving .running ∨ ok = true
  | .commit ok =>
    match s.stage with
    | .saved .running _ => ok = true → s.row ≠ some .failed
    | _ => ok = true
  | .publish ok =>
    match s.stage with
    | .publishing .running => ok = true → s.redis ≠ some .failed
    | _ => ok = true
  | .finish (.ok _) none => s.memory.status ≠ .failed ∧ s.row ≠ some .failed
  | .cancel _ => Cancellable s
  | .cancelCommit _ ok => ok = true → Cancellable s
  | _ => True

structure Underway (memory : ExecutionStatus) (row redis : Option ExecutionStatus) : Prop where
  memory : memory ≠ .completed
  row : row ≠ some .completed
  redis : redis ≠ some .completed

/-- The status is completed in memory, and not yet final anywhere else. -/
structure Completing (memory : ExecutionStatus) (row redis : Option ExecutionStatus) : Prop where
  memory : memory = .completed
  present : row.isSome = true
  row : row ≠ some .completed ∧ row ≠ some .failed
  redis : redis ≠ some .completed ∧ redis ≠ some .failed

/-- What the three places hold at each stage. -/
def StageHolds : Stage → ExecutionStatus → Option ExecutionStatus → Option ExecutionStatus → Prop
  | .created,memory,row,redis => row = none ∧ Underway memory row redis
  | .inserted,memory,row,redis | .scheduled,memory,row,redis | .executing,memory,row,redis
  | .saving .running,memory,row,redis | .saved .running _,memory,row,redis
  | .publishing .running,memory,row,redis => row.isSome = true ∧ Underway memory row redis
  | .saving .completed,memory,row,redis => Completing memory row redis
  | .saved .completed record,memory,row,redis => record = row ∧ Completing memory row redis
  | .publishing .completed,memory,row,redis =>
    memory = .completed ∧ row = some .completed ∧ redis ≠ some .completed ∧ redis ≠ some .failed
  | .saving .failed,memory,row,redis => memory = .failed ∧ row.isSome = true ∧ Underway memory row redis
  | .saved .failed record,memory,row,redis =>
    memory = .failed ∧ (record = some .failed → row = some .failed) ∧ row.isSome = true ∧ Underway memory row redis
  | .publishing .failed,memory,row,redis => memory = .failed ∧ row = some .failed ∧ redis ≠ some .completed
  | .ended,memory,row,redis => row = some memory ∧ redis = some memory
  | .saving .pending,_,_,_ | .saved .pending _,_,_,_ | .publishing .pending,_,_,_ => False

/-- A cancellation has reached the memory or the database, or the run has failed. -/
def Failing (s : Execution κ) : Prop := s.memory.status = .failed ∨ s.row = some .failed

structure Coherent (s : Execution κ) : Prop where
  stage : StageHolds s.stage s.memory.status s.row s.redis
  shown : s.redis = some .failed → Failing s
  cancelling : ∀ j, s.cancels j = .publishing → Failing s
  fetched : ∀ j record, s.cancels j = .fetched record →
    s.row.isSome = true ∧ (record = some .failed → s.row = some .failed)

theorem Kept.refl (s : Execution κ) : Kept s s := ⟨fun _ => rfl,fun _ _ own => own,fun _ _ own => own⟩

theorem Kept.trans {s t u : Execution κ} (first : Kept s t) (second : Kept t u) : Kept s u where
  memory final := by
    have same := first.memory final
    rw [second.memory (same ▸ final),same]
  row v final own := second.row v final (first.row v final own)
  redis v final own := second.redis v final (first.redis v final own)

theorem Kept.failing {s t : Execution κ} (kept : Kept s t) (failing : Failing s) : Failing t := by
  rcases failing with inMemory | inRow
  · exact .inl ((kept.memory (by simp [inMemory,Terminal])).trans inMemory)
  · exact .inr (kept.row .failed trivial inRow)

/-- As long as nothing is completed the only final status is failed. -/
theorem Underway.kept {s t : Execution κ} (underway : Underway s.memory.status s.row s.redis)
    (inMemory : s.memory.status = .failed → t.memory.status = .failed)
    (inRow : s.row = some .failed → t.row = some .failed)
    (inRedis : s.redis = some .failed → t.redis = some .failed) : Kept s t := by
  obtain ⟨memory,row,redis⟩ := underway
  constructor
  · intro final
    cases own : s.memory.status with
    | pending | running => exact (own ▸ final).elim
    | completed => exact absurd own memory
    | failed => exact inMemory own
  · intro v final own
    cases v with
    | pending | running => exact final.elim
    | completed => exact absurd own row
    | failed => exact inRow own
  · intro v final own
    cases v with
    | pending | running => exact final.elim
    | completed => exact absurd own redis
    | failed => exact inRedis own

section

variable {stage : Stage} {memory memory' : ExecutionStatus} {row row' redis redis' : Option ExecutionStatus}

theorem Underway.fail (underway : Underway memory row redis) (inMemory : memory' = memory ∨ memory' = .failed)
    (inRow : row' = row ∨ row' = some .failed) (inRedis : redis' = redis ∨ redis' = some .failed) :
    Underway memory' row' redis' := by
  constructor
  · rcases inMemory with rfl | rfl
    · exact underway.memory
    · simp
  · rcases inRow with rfl | rfl
    · exact underway.row
    · simp
  · rcases inRedis with rfl | rfl
    · exact underway.redis
    · simp

/-- Until the execution completes, each place may turn to failed. -/
theorem StageHolds.fail (holds : StageHolds stage memory row redis) (uncompleted : memory ≠ .completed)
    (final : stage = .ended → memory = .failed) (inMemory : memory' = memory ∨ memory' = .failed)
    (inRow : row' = row ∨ row.isSome = true ∧ row' = some .failed)
    (inRedis : redis' = redis ∨ redis' = some .failed) :
    Underway memory row redis ∧ StageHolds stage memory' row' redis' := by
  have within : Underway memory row redis → Underway memory' row' redis' :=
    fun underway => underway.fail inMemory (inRow.imp id And.right) inRedis
  have present : row.isSome = true → row'.isSome = true := by
    rcases inRow with rfl | ⟨_,rfl⟩
    · exact id
    · exact fun _ => rfl
  have stays : memory = .failed → memory' = .failed := fun own => inMemory.elim (·.trans own) id
  have rowStays : row = some .failed → row' = some .failed :=
    fun own => inRow.elim (·.trans own) And.right
  cases stage with
  | created =>
    obtain ⟨none,underway⟩ := holds
    refine ⟨underway,?_,within underway⟩
    rcases inRow with same | ⟨stored,_⟩
    · exact same.trans none
    · simp [none] at stored
  | inserted | scheduled | executing => exact ⟨holds.2,present holds.1,within holds.2⟩
  | saving v =>
    cases v with
    | pending => exact holds.elim
    | running => exact ⟨holds.2,present holds.1,within holds.2⟩
    | completed => exact absurd holds.memory uncompleted
    | failed => exact ⟨holds.2.2,stays holds.1,present holds.2.1,within holds.2.2⟩
  | saved v record =>
    cases v with
    | pending => exact holds.elim
    | running => exact ⟨holds.2,present holds.1,within holds.2⟩
    | completed => exact absurd holds.2.memory uncompleted
    | failed =>
      obtain ⟨own,known,stored,underway⟩ := holds
      exact ⟨underway,stays own,fun seen => rowStays (known seen),present stored,within underway⟩
  | publishing v =>
    cases v with
    | pending => exact holds.elim
    | running => exact ⟨holds.2,present holds.1,within holds.2⟩
    | completed => exact absurd holds.1 uncompleted
    | failed =>
      obtain ⟨own,saved,shown⟩ := holds
      have underway : Underway memory row redis := ⟨uncompleted,by simp [saved],shown⟩
      exact ⟨underway,stays own,rowStays saved,(within underway).redis⟩
  | ended =>
    obtain ⟨saved,shown⟩ := holds
    have own := final rfl
    rw [own] at saved shown
    refine ⟨⟨uncompleted,by simp [saved],by simp [shown]⟩,?_⟩
    rw [stays own]
    exact ⟨rowStays saved,inRedis.elim (·.trans shown) id⟩

end

section

variable {s t : Execution κ}

theorem coherent_agrees (coherent : Coherent s) (quiescent : Quiescent s) : Agrees s := by
  have holds := coherent.stage
  rw [quiescent.1] at holds
  exact holds

/-- What has failed somewhere can only fail. -/
theorem Coherent.cancellable (coherent : Coherent s) (failing : Failing s) : Cancellable s := by
  have holds := coherent.stage
  rcases failing with inMemory | inRow
  · exact ⟨by simp [inMemory],fun _ => inMemory⟩
  · constructor
    · intro completed
      rw [completed,inRow] at holds
      revert holds
      cases s.stage with
      | created => exact fun holds => nomatch holds.1
      | inserted | scheduled | executing => exact fun holds => holds.2.memory rfl
      | saving v =>
        cases v with
        | pending => exact id
        | running => exact fun holds => holds.2.memory rfl
        | completed => exact fun holds => holds.row.2 rfl
        | failed => exact fun holds => holds.2.2.memory rfl
      | saved v record =>
        cases v with
        | pending => exact id
        | running => exact fun holds => holds.2.memory rfl
        | completed => exact fun holds => holds.2.row.2 rfl
        | failed => exact fun holds => holds.2.2.2.memory rfl
      | publishing v =>
        cases v with
        | pending => exact id
        | running => exact fun holds => holds.2.memory rfl
        | completed => exact fun holds => by simp [StageHolds] at holds
        | failed => exact fun holds => by simp [StageHolds] at holds
      | ended => exact fun holds => by simp [StageHolds] at holds
    · intro ended
      rw [ended,inRow] at holds
      exact (Option.some.inj holds.1).symm

/-- A step of the task. -/
theorem Coherent.proceed (coherent : Coherent s) (cancels : t.cancels = s.cancels)
    (stage : StageHolds t.stage t.memory.status t.row t.redis) (kept : Kept s t)
    (present : s.row.isSome = true → t.row.isSome = true)
    (shown : t.redis = s.redis ∨ (t.redis = some .failed → Failing t)) : Coherent t ∧ Kept s t := by
  refine ⟨⟨stage,?_,?_,?_⟩,kept⟩
  · intro gone
    rcases shown with same | fails
    · exact kept.failing (coherent.shown (same ▸ gone))
    · exact fails gone
  · intro j publishing
    exact kept.failing (coherent.cancelling j (cancels ▸ publishing))
  · intro j record fetched
    obtain ⟨stored,known⟩ := coherent.fetched j record (cancels ▸ fetched)
    exact ⟨present stored,fun gone => kept.row .failed trivial (known gone)⟩

/-- A step of a cancel request that writes. -/
theorem Coherent.fail (coherent : Coherent s) (cancellable : Cancellable s) (stage : t.stage = s.stage)
    (inMemory : t.memory.status = s.memory.status ∨ t.memory.status = .failed)
    (inRow : t.row = s.row ∨ s.row.isSome = true ∧ t.row = some .failed)
    (inRedis : t.redis = s.redis ∨ t.redis = some .failed) (failing : Failing t)
    (cancels : ∀ j, t.cancels j = s.cancels j ∨ t.cancels j = .publishing ∨ t.cancels j = .ended) :
    Coherent t ∧ Kept s t := by
  obtain ⟨underway,holds⟩ := coherent.stage.fail cancellable.1 cancellable.2 inMemory inRow inRedis
  have kept : Kept s t := underway.kept (fun gone => inMemory.elim (·.trans gone) id)
    (fun gone => inRow.elim (·.trans gone) And.right) (fun gone => inRedis.elim (·.trans gone) id)
  refine ⟨⟨stage ▸ holds,fun _ => failing,fun _ _ => failing,?_⟩,kept⟩
  intro j record fetched
  rcases cancels j with same | new | new
  · obtain ⟨stored,known⟩ := coherent.fetched j record (same ▸ fetched)
    refine ⟨?_,fun gone => kept.row .failed trivial (known gone)⟩
    rcases inRow with same | ⟨_,now⟩
    · exact same ▸ stored
    · rw [now]
      rfl
  · rw [new] at fetched
    contradiction
  · rw [new] at fetched
    contradiction

variable [DecidableEq κ]

@[simp] theorem setCancel_cancels (s : Execution κ) (j k : κ) (c : CancelStage) :
    (s.setCancel j c).cancels k = if k = j then c else s.cancels k := by
  simp [Execution.setCancel,Function.update_apply]

/-- A step of a cancel request that only reads, or ends it. -/
theorem Coherent.setCancel (coherent : Coherent s) {j : κ} {c : CancelStage} (idle : c ≠ .publishing)
    (read : ∀ record, c = .fetched record → s.row.isSome = true ∧ record = s.row) :
    Coherent (s.setCancel j c) ∧ Kept s (s.setCancel j c) := by
  refine ⟨⟨coherent.stage,coherent.shown,?_,?_⟩,⟨fun _ => rfl,fun _ _ own => own,fun _ _ own => own⟩⟩
  · intro k publishing
    rw [setCancel_cancels] at publishing
    split at publishing
    · contradiction
    · exact coherent.cancelling k publishing
  · intro k record fetched
    rw [setCancel_cancels] at fetched
    split at fetched
    · obtain ⟨stored,own⟩ := read record fetched
      exact ⟨stored,fun gone => own.symm.trans gone⟩
    · exact coherent.fetched k record fetched

theorem flushStatus_some {v : ExecutionStatus} {record current : Option ExecutionStatus}
    (present : current.isSome = true) (known : record = some v → current = some v) :
    flushStatus v record current = some v := by
  obtain ⟨own,rfl⟩ := Option.isSome_iff_exists.mp present
  by_cases same : record = some v
  · simp [flushStatus,same,known same]
  · simp [flushStatus,same]

theorem flushStatus_cases (v : ExecutionStatus) (record current : Option ExecutionStatus) :
    flushStatus v record current = current ∨ flushStatus v record current = some v := by
  simp only [flushStatus]
  split
  · exact .inl rfl
  · cases current
    · exact .inl rfl
    · exact .inr rfl

theorem flushStatus_isSome (v : ExecutionStatus) (record current : Option ExecutionStatus) :
    (flushStatus v record current).isSome = current.isSome := by
  simp only [flushStatus]
  split
  · rfl
  · simp

theorem commit_coherent (coherent : Coherent s) {ok : Bool} (unhindered : Unhindered s (.commit ok))
    (stepped : s.step (.commit ok) = some t) : Coherent t ∧ Kept s t := by
  simp only [Execution.step] at stepped
  split at stepped
  · next v record saved =>
    cases stepped
    have holds := coherent.stage
    rw [saved] at holds
    simp only [Unhindered,saved] at unhindered
    have present : s.row.isSome = true → (if ok = true then flushStatus v record s.row else s.row).isSome = true := by
      intro stored
      split
      · rw [flushStatus_isSome,stored]
      · exact stored
    cases v with
    | pending => exact holds.elim
    | running =>
      obtain ⟨stored,underway⟩ := holds
      cases ok with
      | false => exact coherent.proceed rfl ⟨stored,underway⟩ (underway.kept id id id) present (.inl rfl)
      | true =>
        have uncanceled := unhindered rfl
        refine coherent.proceed rfl ⟨present stored,underway.memory,?_,underway.redis⟩ ?_ present (.inl rfl)
        · rcases flushStatus_cases .running record s.row with same | running
          · simpa [same] using underway.row
          · simp [running]
        · exact underway.kept id (fun own => absurd own uncanceled) id
    | completed =>
      obtain rfl : ok = true := unhindered
      obtain ⟨rfl,memory,stored,row,redis⟩ := holds
      have written : flushStatus .completed s.row s.row = some .completed := flushStatus_some stored id
      refine coherent.proceed rfl ⟨memory,written,redis⟩ ⟨fun _ => rfl,?_,fun _ _ own => own⟩ present (.inl rfl)
      intro v final own
      cases v with
      | pending | running => exact final.elim
      | completed => exact absurd own row.1
      | failed => exact absurd own row.2
    | failed =>
      obtain rfl : ok = true := unhindered
      obtain ⟨memory,known,stored,underway⟩ := holds
      have written : flushStatus .failed record s.row = some .failed := flushStatus_some stored known
      exact coherent.proceed rfl ⟨memory,written,underway.redis⟩
        (underway.kept id (fun _ => written) id) present (.inl rfl)
  · contradiction

theorem publish_coherent (coherent : Coherent s) {ok : Bool} (unhindered : Unhindered s (.publish ok))
    (stepped : s.step (.publish ok) = some t) : Coherent t ∧ Kept s t := by
  simp only [Execution.step] at stepped
  split at stepped
  · next v publishing =>
    cases stepped
    have holds := coherent.stage
    rw [publishing] at holds
    simp only [Unhindered,publishing] at unhindered
    cases v with
    | pending => exact holds.elim
    | running =>
      obtain ⟨stored,underway⟩ := holds
      cases ok with
      | false => exact coherent.proceed rfl ⟨stored,underway⟩ (underway.kept id id id) id (.inl rfl)
      | true =>
        refine coherent.proceed rfl ⟨stored,underway.memory,underway.row,by simp⟩ ?_ id
          (.inr fun shown => by simp at shown)
        exact underway.kept id id (fun own => absurd own (unhindered rfl))
    | completed =>
      obtain rfl : ok = true := unhindered
      obtain ⟨memory,row,redis⟩ := holds
      refine coherent.proceed rfl ⟨by rw [row,memory],by simp [memory]⟩
        ⟨fun _ => rfl,fun _ _ own => own,?_⟩ id (.inr fun shown => by simp at shown)
      intro v final own
      cases v with
      | pending | running => exact final.elim
      | completed => rfl
      | failed => exact absurd own redis.2
    | failed =>
      obtain rfl : ok = true := unhindered
      obtain ⟨memory,row,redis⟩ := holds
      have underway : Underway s.memory.status s.row s.redis := ⟨by simp [memory],by simp [row],redis⟩
      exact coherent.proceed rfl ⟨by rw [row,memory],by simp [memory]⟩
        (underway.kept id id (fun _ => rfl)) id (.inr fun _ => .inl memory)
  · contradiction

theorem finish_coherent (coherent : Coherent s) {outcome : Except String NodeExecutionResult}
    {dumpError : Option String} (unhindered : Unhindered s (.finish outcome dumpError))
    (stepped : s.step (.finish outcome dumpError) = some t) : Coherent t ∧ Kept s t := by
  simp only [Execution.step] at stepped
  split at stepped
  · next executing =>
    cases stepped
    have holds := coherent.stage
    rw [executing] at holds
    obtain ⟨stored,underway⟩ := holds
    have breaks : (s.memory.finish outcome dumpError).status = .failed →
        Coherent { s with memory := s.memory.finish outcome dumpError,
                          stage := .saving (s.memory.finish outcome dumpError).status } ∧
        Kept s { s with memory := s.memory.finish outcome dumpError,
                        stage := .saving (s.memory.finish outcome dumpError).status } := by
      intro broken
      refine coherent.proceed rfl ?_ (underway.kept (fun _ => broken) id id) id (.inl rfl)
      simp only [broken]
      exact ⟨rfl,stored,by simp,underway.row,underway.redis⟩
    cases outcome with
    | error text => exact breaks rfl
    | ok result =>
      cases dumpError with
      | some text => exact breaks rfl
      | none =>
        obtain ⟨inMemory,inRow⟩ := unhindered
        have uncanceled : ¬Failing s := fun failing => failing.elim inMemory inRow
        exact coherent.proceed rfl ⟨rfl,stored,⟨underway.row,inRow⟩,underway.redis,
          fun shown => uncanceled (coherent.shown shown)⟩
          (underway.kept (fun own => absurd own inMemory) id id) id (.inl rfl)
  · contradiction

theorem insert_coherent (coherent : Coherent s) {ok : Bool} (unhindered : Unhindered s (.insert ok))
    (stepped : s.step (.insert ok) = some t) : Coherent t ∧ Kept s t := by
  simp only [Execution.step] at stepped
  split at stepped
  · next created =>
    cases stepped
    obtain rfl : ok = true := unhindered
    have holds := coherent.stage
    rw [created] at holds
    obtain ⟨row,underway⟩ := holds
    exact coherent.proceed rfl ⟨rfl,underway.memory,by simp,underway.redis⟩
      (underway.kept id (fun own => by simp [row] at own) id) (fun _ => rfl) (.inl rfl)
  · contradiction

theorem announce_coherent (coherent : Coherent s) {ok : Bool} (unhindered : Unhindered s (.announce ok))
    (stepped : s.step (.announce ok) = some t) : Coherent t ∧ Kept s t := by
  simp only [Execution.step] at stepped
  split at stepped
  · next inserted =>
    cases stepped
    have holds := coherent.stage
    rw [inserted] at holds
    obtain ⟨stored,underway⟩ := holds
    cases ok with
    | false => exact coherent.proceed rfl ⟨stored,underway⟩ (underway.kept id id id) id (.inl rfl)
    | true =>
      exact coherent.proceed rfl ⟨stored,underway.memory,underway.row,by simp⟩
        (underway.kept id id (fun own => absurd own (unhindered rfl))) id (.inr fun shown => by simp at shown)
  · contradiction

theorem begin_coherent (coherent : Coherent s) {available : Bool} (unhindered : Unhindered s (.begin available))
    (stepped : s.step (.begin available) = some t) : Coherent t ∧ Kept s t := by
  simp only [Execution.step] at stepped
  split at stepped
  · next scheduled =>
    have holds := coherent.stage
    rw [scheduled] at holds
    obtain ⟨stored,underway⟩ := holds
    cases available with
    | true =>
      cases stepped
      exact coherent.proceed rfl ⟨stored,by simp,underway.row,underway.redis⟩
        (underway.kept (fun own => absurd own unhindered) id id) id (.inl rfl)
    | false =>
      cases stepped
      exact coherent.proceed rfl unhindered (underway.kept id id id) id (.inl rfl)
  · contradiction

theorem fetch_coherent (coherent : Coherent s) {ok : Bool} (unhindered : Unhindered s (.fetch ok))
    (stepped : s.step (.fetch ok) = some t) : Coherent t ∧ Kept s t := by
  simp only [Execution.step] at stepped
  split at stepped
  · next v saving =>
    cases stepped
    have holds := coherent.stage
    rw [saving] at holds
    refine coherent.proceed rfl ?_ ⟨fun _ => rfl,fun _ _ own => own,fun _ _ own => own⟩ id (.inl rfl)
    cases v with
    | pending => exact holds.elim
    | running =>
      simp only
      split
      · exact holds
      · exact holds
    | completed =>
      obtain rfl : ok = true := by simpa [Unhindered,saving] using unhindered
      simp only [holds.present,and_self,if_true]
      exact ⟨rfl,holds⟩
    | failed =>
      obtain rfl : ok = true := by simpa [Unhindered,saving] using unhindered
      simp only [holds.2.1,and_self,if_true]
      exact ⟨holds.1,id,holds.2⟩
  · contradiction

theorem cancel_coherent (coherent : Coherent s) {j : κ} (unhindered : Unhindered s (.cancel j))
    (stepped : s.step (.cancel j) = some t) : Coherent t ∧ Kept s t := by
  simp only [Execution.step] at stepped
  split at stepped
  · cases stepped
    refine coherent.fail unhindered rfl (.inr rfl) (.inl rfl) (.inl rfl) (.inl rfl) fun k => ?_
    rw [setCancel_cancels]
    split
    · exact .inr (.inl rfl)
    · exact .inl rfl
  · contradiction

theorem cancelFetch_coherent (coherent : Coherent s) {j : κ} {ok : Bool}
    (stepped : s.step (.cancelFetch j ok) = some t) : Coherent t ∧ Kept s t := by
  simp only [Execution.step] at stepped
  split at stepped
  · cases stepped
    split
    · next found =>
      apply coherent.setCancel (by simp)
      intro record read
      cases read
      exact ⟨found.2,rfl⟩
    · exact coherent.setCancel (by simp) (by simp)
  · contradiction

theorem cancelCommit_coherent (coherent : Coherent s) {j : κ} {ok : Bool} (unhindered : Unhindered s (.cancelCommit j ok))
    (stepped : s.step (.cancelCommit j ok) = some t) : Coherent t ∧ Kept s t := by
  simp only [Execution.step] at stepped
  split at stepped
  · next record fetched =>
    split at stepped
    · next accepted =>
      cases stepped
      obtain ⟨stored,known⟩ := coherent.fetched j record fetched
      have written : flushStatus .failed record s.row = some .failed := flushStatus_some stored known
      refine coherent.fail (unhindered accepted) rfl (.inl rfl) (.inr ⟨stored,written⟩) (.inl rfl)
        (.inr written) fun k => ?_
      rw [setCancel_cancels]
      split
      · exact .inr (.inl rfl)
      · exact .inl rfl
    · cases stepped
      exact coherent.setCancel (by simp) (by simp)
  · contradiction

theorem cancelPublish_coherent (coherent : Coherent s) {j : κ} {ok : Bool}
    (stepped : s.step (.cancelPublish j ok) = some t) : Coherent t ∧ Kept s t := by
  simp only [Execution.step] at stepped
  split at stepped
  · next publishing =>
    cases stepped
    have failing := coherent.cancelling j publishing
    refine coherent.fail (coherent.cancellable failing) rfl (.inl rfl) (.inl rfl) ?_ failing fun k => ?_
    · cases ok
      · exact .inl rfl
      · exact .inr rfl
    · rw [setCancel_cancels]
      split
      · exact .inr (.inr rfl)
      · exact .inl rfl
  · contradiction

theorem step_coherent {a : ExecutionAction κ} (coherent : Coherent s) (unhindered : Unhindered s a)
    (stepped : s.step a = some t) : Coherent t ∧ Kept s t := by
  cases a with
  | insert ok => exact insert_coherent coherent unhindered stepped
  | announce ok => exact announce_coherent coherent unhindered stepped
  | begin available => exact begin_coherent coherent unhindered stepped
  | fetch ok => exact fetch_coherent coherent unhindered stepped
  | commit ok => exact commit_coherent coherent unhindered stepped
  | publish ok => exact publish_coherent coherent unhindered stepped
  | finish outcome dumpError => exact finish_coherent coherent unhindered stepped
  | emit event =>
    simp only [Execution.step] at stepped
    split at stepped
    · next executing =>
      cases stepped
      exact coherent.proceed rfl coherent.stage ⟨fun _ => rfl,fun _ _ own => own,fun _ _ own => own⟩ id (.inl rfl)
    · contradiction
  | cancel j => exact cancel_coherent coherent unhindered stepped
  | cancelFetch j ok => exact cancelFetch_coherent coherent stepped
  | cancelCommit j ok => exact cancelCommit_coherent coherent unhindered stepped
  | cancelPublish j ok => exact cancelPublish_coherent coherent stepped

/-- In every run of unhindered steps a terminal status stays, and at rest all three places agree. -/
theorem status_settles (first second : List (ExecutionAction κ)) (u s : Execution κ)
    (before : run Execution.step first {} = some u) (after : run Execution.step second u = some s)
    (unhindered : Throughout Execution.step Unhindered (first ++ second) {}) :
    Kept u s ∧ (Quiescent s → Agrees s) := by
  obtain ⟨early,late⟩ := throughout_append before unhindered
  have initial : Coherent ({} : Execution κ) := ⟨⟨rfl,by simp,by simp,by simp⟩,by simp,by simp,by simp⟩
  have middle : Coherent u := run_invariant
    (fun _ _ _ coherent good stepped => (step_coherent coherent good stepped).1) before initial early
  have preserved : ∀ v a w, Coherent v ∧ Kept u v → Unhindered v a → v.step a = some w →
      Coherent w ∧ Kept u w := by
    intro v a w holds good stepped
    obtain ⟨coherent,kept⟩ := step_coherent holds.1 good stepped
    exact ⟨coherent,holds.2.trans kept⟩
  have together := run_invariant preserved after ⟨middle,.refl u⟩ late
  exact ⟨together.2,coherent_agrees together.1⟩

end

instance (s : Execution κ) : Decidable (Agrees s) := inferInstanceAs (Decidable (_ ∧ _))

instance (s : Execution κ) : Decidable (Cancellable s) := inferInstanceAs (Decidable (_ ∧ _))

instance (s : Execution κ) : ∀ a, Decidable (Unhindered s a)
  | .commit _ | .publish _ => by
    simp only [Unhindered]
    split <;> infer_instance
  | .begin true | .begin false | .finish (.ok _) none | .finish (.ok _) (some _) | .finish (.error _) _
  | .insert _ | .announce _ | .fetch _ | .emit _ | .cancel _ | .cancelFetch .. | .cancelCommit ..
  | .cancelPublish .. => by
    simp only [Unhindered]
    infer_instance

/-- The task has told the database and Redis that it runs. -/
def started : List (ExecutionAction Unit) :=
  [.insert true,.announce true,.begin true,.fetch true,.commit true,.publish true]

def canceled : List (ExecutionAction Unit) := started ++ [.cancel (),.cancelPublish () true]

/-- The nodes of a cancelled run go on, and when they are done the execution is completed. -/
theorem canceled_completes :
    ¬∀ (first second : List (ExecutionAction Unit)) (u s : Execution Unit),
      run Execution.step first {} = some u → run Execution.step second u = some s →
      Kept u s ∧ (Quiescent s → Agrees s) := by
  intro claim
  have statuses : (run Execution.step canceled {}).map (fun u => (u.memory.status,
      (run Execution.step [.finish (.ok { success := true }) none] u).map (·.memory.status))) =
        some (.failed,some .completed) := by decide +kernel
  obtain ⟨u,before,finishes⟩ := Option.map_eq_some_iff.mp statuses
  obtain ⟨gone,done⟩ := Prod.mk.inj finishes
  obtain ⟨s,after,completed⟩ := Option.map_eq_some_iff.mp done
  have same := (claim _ _ u s before after).1.memory (by simp [gone,Terminal])
  simp [gone,completed] at same

/-- A cancelled run that then fails, and its failure saved. -/
def failsLater : List (ExecutionAction Unit) :=
  [.emit "node.failed",.finish (.error "boom") none,.fetch true,.commit true,.publish true]

def settled : Execution Unit := (run Execution.step (canceled ++ failsLater) {}).getD {}

def canceledAt : Execution Unit := (run Execution.step canceled {}).getD {}

theorem canceled_settles : Kept canceledAt settled ∧ (Quiescent settled → Agrees settled) :=
  status_settles canceled failsLater canceledAt settled rfl rfl (by decide +kernel)

end IceOS
