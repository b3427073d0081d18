import Mathlib.Algebra.Order.Ring.Rat
import IceOS.ApiSecurity
import IceOS.OrderedDict
import IceOS.SlidingWindow

/-! The rate limit of the draft routes: one bucket of admitted times for each token and path. -/
namespace IceOS

open ApiSecurity SlidingWindow

/-- The bucket's key is the token and the path; `now` is what `time.time()` gives. -/
structure RateRequest where
  key : String × String
  now : Rat
  deriving DecidableEq

abbrev RateBuckets := OrderedDict (String × String) (List Rat)

namespace RateLimit

def rateWindow : Rat := 10
def rateMax : Nat := 5

def bucketOf (s : RateBuckets) (key : String × String) : List Rat := (s.get? key).getD []

/-- `rate_limit`. The pruned bucket stays also when the request is refused. -/
def rateLimit (window : Rat) (max : Nat) (s : RateBuckets) (request : RateRequest) :
    Except HTTPException Unit × RateBuckets :=
  let kept := recent window request.now (bucketOf s request.key)
  if max ≤ kept.length then
    (.error { statusCode := 429,detail := "Rate limit exceeded" },s.set request.key kept)
  else (.ok (),s.set request.key (kept ++ [request.now]))

/-- Each request with whether it was admitted. -/
abbrev Decisions := List (RateRequest × Bool)

def answers (window : Rat) (max : Nat) (s : RateBuckets) : List RateRequest → Decisions
  | [] => []
  | request :: rest =>
    let (answer,t) := rateLimit window max s request
    (request,answer.isOk) :: answers window max t rest

/-- The admitted times of a key. -/
def admitted (decisions : Decisions) (key : String × String) : List Rat :=
  (decisions.filter fun d => d.1.key = key ∧ d.2 = true).map (·.1.now)

theorem admitted_append (past later : Decisions) (key : String × String) :
    admitted (past ++ later) key = admitted past key ++ admitted later key := by
  simp [admitted]

/-- Every bucket stands for the log of its key. -/
def Limits (window : Rat) (max : Nat) (last : Rat) (past : Decisions) (s : RateBuckets) : Prop :=
  ∀ key, Tracks window max last (admitted past key) (bucketOf s key)

theorem limits_empty (window : Rat) (max : Nat) (last : Rat) : Limits window max last [] .empty :=
  fun _ => tracks_nil window max last

theorem bucketOf_set (s : RateBuckets) (key other : String × String) (bucket : List Rat) :
    bucketOf (s.set key bucket) other = if key = other then bucket else bucketOf s other := by
  simp only [bucketOf,OrderedDict.get?_set]
  split <;> rfl

theorem admitted_single (request : RateRequest) (through : Bool) (key : String × String) :
    admitted [(request,through)] key = if request.key = key ∧ through = true then [request.now] else [] := by
  simp only [admitted,List.filter_cons,List.filter_nil,decide_eq_true_eq]
  split <;> rfl

/-- A request is refused exactly when `max` times of its bucket still count. -/
theorem rateLimit_isOk (window : Rat) (max : Nat) (s : RateBuckets) (request : RateRequest) :
    (rateLimit window max s request).1.isOk = false ↔
      max ≤ (recent window request.now (bucketOf s request.key)).length := by
  simp only [rateLimit]
  split
  · next full => exact ⟨fun _ => full,fun _ => rfl⟩
  · next room => exact ⟨fun refused => Bool.noConfusion refused,fun full => absurd full room⟩

theorem Limits.step {window : Rat} {max : Nat} {last : Rat} {past : Decisions} {s : RateBuckets}
    (limits : Limits window max last past s) {request : RateRequest} (order : last ≤ request.now) :
    Limits window max request.now (past ++ [(request,(rateLimit window max s request).1.isOk)])
      (rateLimit window max s request).2 := by
  intro key
  have own := limits request.key
  rw [admitted_append,admitted_single]
  by_cases full : max ≤ (recent window request.now (bucketOf s request.key)).length
  · have refused := (rateLimit_isOk window max s request).mpr full
    rw [refused,if_neg fun both => Bool.noConfusion both.2,List.append_nil]
    simp only [rateLimit,if_pos full,bucketOf_set]
    split
    · next same => exact same ▸ own.prune order
    · exact (limits key).later order
  · have through : (rateLimit window max s request).1.isOk = true :=
      Bool.eq_true_of_not_eq_false ((rateLimit_isOk window max s request).not.mpr full)
    rw [through]
    simp only [rateLimit,if_neg full,bucketOf_set,and_true]
    split
    · next same => exact same ▸ own.admit order (Nat.not_le.mp full)
    · rw [List.append_nil]
      exact (limits key).later order

/-- From a state that limits, all later states limit, and whoever is refused finds `max` times of its key
that still count. -/
theorem Limits.answers {window : Rat} {max : Nat} {last : Rat} {past : Decisions} {s : RateBuckets}
    (limits : Limits window max last past s) (requests : List RateRequest)
    (ordered : requests.Pairwise (·.now ≤ ·.now)) (after : ∀ request ∈ requests, last ≤ request.now) :
    (∃ t : RateBuckets, ∃ now, Limits window max now (past ++ answers window max s requests) t) ∧
      ∀ front request later, answers window max s requests = front ++ (request,false) :: later →
        max ≤ (recent window request.now (admitted (past ++ front) request.key)).length := by
  induction requests generalizing last past s with
  | nil =>
    refine ⟨⟨s,last,by simpa [RateLimit.answers] using limits⟩,fun front request later parts => ?_⟩
    cases front <;> cases parts
  | cons first rest ih =>
    obtain ⟨head,tail⟩ := List.pairwise_cons.mp ordered
    have order := after first List.mem_cons_self
    obtain ⟨reached,refusals⟩ := ih (limits.step order) tail head
    simp only [RateLimit.answers]
    rw [List.append_cons]
    refine ⟨reached,fun front request later parts => ?_⟩
    cases front with
    | nil =>
      obtain ⟨same,-⟩ := List.cons.inj parts
      obtain ⟨rfl,refused⟩ := Prod.mk.inj same
      have full := (rateLimit_isOk window max s first).mp refused
      rwa [(limits first.key).counts first.now order,← List.append_nil past] at full
    | cons decision front =>
      obtain ⟨same,parts⟩ := List.cons.inj parts
      have own := refusals front request later parts
      rw [same,← List.append_cons] at own
      exact own

/-- A half-open interval of the window's length holds at most `max` admitted requests of a key, whichever
end it lacks, and a request is refused only if `max` requests of its key were admitted less than the
window before it. -/
theorem rate_limited (window : Rat) (max : Nat) (requests : List RateRequest)
    (ordered : requests.Pairwise (·.now ≤ ·.now)) :
    let decisions := answers window max .empty requests
    (∀ key start, ((admitted decisions key).filter fun t => start ≤ t ∧ t < start + window).length ≤ max) ∧
      (∀ key start, ((admitted decisions key).filter fun t => start < t ∧ t ≤ start + window).length ≤ max) ∧
      ∀ past request later, decisions = past ++ (request,false) :: later →
        max ≤ ((admitted past request.key).filter fun t => request.now - t < window).length := by
  intro decisions
  have start : ∃ last, ∀ request ∈ requests, last ≤ request.now := by
    cases requests with
    | nil => exact ⟨0,fun request member => by cases member⟩
    | cons first rest =>
      refine ⟨first.now,fun request member => ?_⟩
      rcases List.mem_cons.mp member with rfl | later
      · exact le_rfl
      · exact (List.pairwise_cons.mp ordered).1 request later
  obtain ⟨last,after⟩ := start
  obtain ⟨⟨t,now,limits⟩,refusals⟩ := (limits_empty window max last).answers requests ordered after
  rw [List.nil_append] at limits
  exact ⟨fun key start => (limits key).capped _ (narrow_from window start),
    fun key start => (limits key).capped _ (narrow_until window start),refusals⟩

/-- Five at the start of the window, the sixth once the first of them is a window old. -/
theorem rate_limited_five : let requests := [0,0,0,0,0,10].map (RateRequest.mk ("token","/lock"))
    requests.Pairwise (·.now ≤ ·.now) ∧
      let decisions := answers rateWindow rateMax .empty requests
      (∀ key start, ((admitted decisions key).filter fun t => start ≤ t ∧ t < start + rateWindow).length ≤ rateMax) ∧
        (∀ key start, ((admitted decisions key).filter fun t => start < t ∧ t ≤ start + rateWindow).length ≤ rateMax) ∧
        ∀ past request later, decisions = past ++ (request,false) :: later →
          rateMax ≤ ((admitted past request.key).filter fun t => request.now - t < rateWindow).length :=
  ⟨by decide +kernel,rate_limited rateWindow rateMax _ (by decide +kernel)⟩

/-- With both ends an interval of the window's length can hold twice as many. -/
theorem closed_window_overfull : ¬∀ requests : List RateRequest, requests.Pairwise (·.now ≤ ·.now) →
    ∀ key start, ((admitted (answers rateWindow rateMax .empty requests) key).filter
      fun t => start ≤ t ∧ t ≤ start + rateWindow).length ≤ rateMax := by
  intro bounded
  have ten := bounded ([0,0,0,0,0,10,10,10,10,10].map (RateRequest.mk ("token","/lock"))) (by decide +kernel)
    ("token","/lock") 0
  revert ten
  decide +kernel

end RateLimit

end IceOS
