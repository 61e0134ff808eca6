import Neuralbase.Library.Machine

namespace Neuralbase.Scheduler

open Neuralbase.Library

/-! The morsel scheduler (`scheduler.rs`): ranges of rows in an injector, from which workers take
batches into queues of their own and, when it is empty, from each other.  Any worker may take the
next step. -/

section Model

structure Range where
  start : Nat
  stop : Nat
deriving DecidableEq

structure MorselScheduler where
  morselSize : Nat
  workerThreads : Nat

def MorselScheduler.withWorkers (morselSize workerThreads : Nat) : MorselScheduler where
  morselSize := max morselSize 1
  workerThreads := max workerThreads 1

/-- The ranges pushed by the loop, from `start` on. -/
def ranges (size : Nat) (total : Nat) : Nat → Nat → List Range
  | 0, _ => []
  | rounds + 1, start =>
    if start < total then
      let stop := min (start + size) total
      { start, stop } :: ranges size total rounds stop
    else []

inductive Phase where
  /-- It pops, or looks into the injector. -/
  | looking
  /-- It has found the injector empty, and tries the other queues in turn. -/
  | sweeping
  | holding (range : Range)
  | exited
deriving DecidableEq

structure Worker where
  queue : List Range
  phase : Phase

structure State (n : Nat) (R : Type) where
  injector : List Range
  workers : Fin n → Worker
  results : List (Nat × R)

inductive Event (n : Nat) where
  | pop (w : Fin n)
  /-- One range to work on, and `extra` more for the worker's queue. -/
  | stealBatch (w : Fin n) (extra : Nat)
  | injectorEmpty (w : Fin n)
  | steal (w victim : Fin n)
  /-- Every queue was empty or contended when it was tried. -/
  | giveUp (w : Fin n)
  | finish (w : Fin n)

variable {n : Nat} {R : Type}

def State.put (s : State n R) (w : Fin n) (worker : Worker) : State n R :=
  { s with workers := Function.update s.workers w worker }

def step (task : Range → R) (s : State n R) : Event n → Option (State n R)
  | .pop w =>
    match (s.workers w).phase, (s.workers w).queue with
    | .looking, range :: rest => some (s.put w { queue := rest, phase := .holding range })
    | _, _ => none
  | .stealBatch w extra =>
    match (s.workers w).phase, (s.workers w).queue, s.injector with
    | .looking, [], range :: rest =>
      some { s.put w { queue := rest.take extra, phase := .holding range } with injector := rest.drop extra }
    | _, _, _ => none
  | .injectorEmpty w =>
    match (s.workers w).phase, (s.workers w).queue, s.injector with
    | .looking, [], [] => some (s.put w { queue := [], phase := .sweeping })
    | _, _, _ => none
  | .steal w victim =>
    match (s.workers w).phase, (s.workers victim).queue with
    | .sweeping, range :: rest =>
      some ((s.put victim { queue := rest, phase := (s.workers victim).phase }).put w
        { queue := (s.workers w).queue, phase := .holding range })
    | _, _ => none
  | .giveUp w =>
    match (s.workers w).phase with
    | .sweeping => some (s.put w { queue := (s.workers w).queue, phase := .exited })
    | _ => none
  | .finish w =>
    match (s.workers w).phase with
    | .holding range =>
      some { s.put w { queue := (s.workers w).queue, phase := .looking } with
        results := s.results ++ [(range.start, task range)] }
    | _ => none

def initial (n : Nat) (R : Type) (all : List Range) : State n R where
  injector := all
  workers _ := { queue := [], phase := .looking }
  results := []

/-- `chunks.sort_by_key(..)`, and what the chunks hold. -/
def collect (results : List (Nat × R)) : List R :=
  (results.insertionSort fun first second => first.1 ≤ second.1).map Prod.snd

def MorselScheduler.ranges (scheduler : MorselScheduler) (total : Nat) : List Range :=
  Scheduler.ranges scheduler.morselSize total total 0

/-- What `parallel_map_ranges` may return, a chunk for each range: what the workers leave when none
of them has a step to take. -/
def ParallelMapRanges (scheduler : MorselScheduler) (total : Nat) (task : Range → R) (chunks : List R) : Prop :=
  if total = 0 then chunks = []
  else ∃ events final, runs (step task) (initial scheduler.workerThreads R (scheduler.ranges total)) events = some final ∧
    (∀ event, step task final event = none) ∧ chunks = collect final.results

end Model

section Loads

variable {n : Nat} {R : Type} {task : Range → R} {s next : State n R} {event : Event n} {w : Fin n}

/-- A sum over the workers when one of them changes. -/
theorem sum_update {M : Type} [AddCommMonoid M] (load : Worker → M) (workers : Fin n → Worker) (w : Fin n) (worker : Worker) :
    (∑ v, load (Function.update workers w worker v)) + load (workers w) = (∑ v, load (workers v)) + load worker := by
  rw [← Finset.add_sum_erase Finset.univ _ (Finset.mem_univ w),
    ← Finset.add_sum_erase Finset.univ (fun v => load (workers v)) (Finset.mem_univ w)]
  have others : ∑ v ∈ Finset.univ.erase w, load (Function.update workers w worker v) =
      ∑ v ∈ Finset.univ.erase w, load (workers v) :=
    Finset.sum_congr rfl fun v member => by rw [Function.update_of_ne (Finset.ne_of_mem_erase member)]
  rw [others, Function.update_self]
  abel

def Phase.held : Phase → Multiset Range
  | .holding range => {range}
  | _ => 0

/-- The ranges a worker has. -/
def Worker.load (worker : Worker) : Multiset Range := worker.queue + worker.phase.held

/-- Ranges not worked on yet. -/
def State.load (s : State n R) : Multiset Range := s.injector + ∑ w, (s.workers w).load

def Phase.weight : Phase → Nat
  | .looking => 2
  | .sweeping => 1
  | .holding _ => 3
  | .exited => 0

def Worker.weight (worker : Worker) : Nat := 3 * worker.queue.length + worker.phase.weight

/-- A bound on the steps still to be taken. -/
def State.weight (s : State n R) : Nat := 4 * s.injector.length + ∑ w, (s.workers w).weight

/-- A worker past the injector has found it empty, with nothing in its own queue. -/
def Quiet (s : State n R) : Prop :=
  ∀ w, (s.workers w).phase = .sweeping ∨ (s.workers w).phase = .exited → (s.workers w).queue = [] ∧ s.injector = []

/-- What a step does: it works off the ranges `done`, and keeps every other one. -/
structure Advances (task : Range → R) (s next : State n R) : Prop where
  quiet : Quiet next
  lighter : next.weight < s.weight
  kept : ∃ done : List Range, next.results = s.results ++ done.map (fun range => (range.start, task range)) ∧
    s.load = next.load + done

theorem quiet_put {worker : Worker} (quiet : Quiet s)
    (new : worker.phase = .sweeping ∨ worker.phase = .exited → worker.queue = [] ∧ s.injector = []) :
    Quiet (s.put w worker) := by
  intro v past
  simp only [State.put] at past ⊢
  rcases eq_or_ne v w with rfl | other
  · rw [Function.update_self] at past ⊢
    exact new past
  · rw [Function.update_of_ne other] at past ⊢
    exact quiet v past

theorem load_put (worker : Worker) : (s.put w worker).load + (s.workers w).load = s.load + worker.load := by
  rw [State.load, State.load, State.put, add_assoc, sum_update, add_assoc]

theorem weight_put (worker : Worker) : (s.put w worker).weight + (s.workers w).weight = s.weight + worker.weight := by
  rw [State.weight, State.weight, State.put, add_assoc, sum_update, add_assoc]

/-- One worker changes, and has the ranges it had. -/
theorem advances_put {worker : Worker} (quiet : Quiet s)
    (new : worker.phase = .sweeping ∨ worker.phase = .exited → worker.queue = [] ∧ s.injector = [])
    (same : worker.load = (s.workers w).load) (lighter : worker.weight < (s.workers w).weight) :
    Advances task s (s.put w worker) := by
  refine ⟨quiet_put quiet new, ?_, [], by simp [State.put], ?_⟩
  · have := @weight_put n R s w worker
    omega
  · have := @load_put n R s w worker
    rw [same] at this
    rw [add_right_cancel this]
    exact (add_zero _).symm

/-- A batch goes from the injector to a worker with nothing. -/
theorem advances_stealBatch {range : Range} {rest : List Range} {extra : Nat} (quiet : Quiet s)
    (phase : (s.workers w).phase = .looking) (queue : (s.workers w).queue = []) (injector : s.injector = range :: rest) :
    Advances task s { s.put w { queue := rest.take extra, phase := .holding range } with injector := rest.drop extra } := by
  have loads := sum_update Worker.load s.workers w { queue := rest.take extra, phase := .holding range }
  have weights := sum_update Worker.weight s.workers w { queue := rest.take extra, phase := .holding range }
  have noLoad : (s.workers w).load = 0 := by simp [Worker.load, phase, queue, Phase.held]
  have light : (s.workers w).weight = 2 := by simp [Worker.weight, phase, queue, Phase.weight]
  have loaded : Worker.load { queue := rest.take extra, phase := .holding range } =
      (rest.take extra : Multiset Range) + {range} := rfl
  have heavy : Worker.weight { queue := rest.take extra, phase := .holding range } = 3 * (rest.take extra).length + 3 := rfl
  have lengths : (rest.take extra).length + (rest.drop extra).length = rest.length := by
    rw [← List.length_append, List.take_append_drop]
  have parts : (rest : Multiset Range) = (rest.take extra : Multiset Range) + (rest.drop extra : Multiset Range) := by
    rw [Multiset.coe_add, List.take_append_drop]
  refine ⟨?_, ?_, [], by simp [State.put], ?_⟩
  · -- the injector was not empty, so no other worker is past it
    intro v past
    rcases eq_or_ne v w with rfl | other
    · simp [State.put] at past
    · simp only [State.put, Function.update_of_ne other] at past
      have none_left := (quiet v past).2
      rw [injector] at none_left
      cases none_left
  · rw [light, heavy] at weights
    simp only [State.weight, State.put, injector, List.length_cons]
    omega
  · rw [noLoad, add_zero, loaded] at loads
    simp only [State.load, State.put, injector]
    rw [loads, ← Multiset.cons_coe, ← Multiset.singleton_add, parts, Multiset.coe_nil]
    abel

/-- One range goes from a queue to a worker past the injector. -/
theorem advances_steal {victim : Fin n} {range : Range} {rest : List Range} (quiet : Quiet s)
    (phase : (s.workers w).phase = .sweeping) (queue : (s.workers victim).queue = range :: rest) :
    Advances task s ((s.put victim { queue := rest, phase := (s.workers victim).phase }).put w
      { queue := (s.workers w).queue, phase := .holding range }) := by
  have own := (quiet w (.inl phase)).1
  have other : w ≠ victim := by
    intro same
    rw [← same, own] at queue
    cases queue
  have first := @load_put n R s victim { queue := rest, phase := (s.workers victim).phase }
  have weightFirst := @weight_put n R s victim { queue := rest, phase := (s.workers victim).phase }
  generalize put : s.put victim { queue := rest, phase := (s.workers victim).phase } = middle at first weightFirst ⊢
  have untouched : middle.workers w = s.workers w := by
    rw [← put]
    exact Function.update_of_ne other _ _
  have quietMiddle : Quiet middle := by
    rw [← put]
    refine quiet_put quiet fun past => ?_
    have empty := (quiet victim past).1
    rw [queue] at empty
    cases empty
  have second := @load_put n R middle w { queue := (s.workers w).queue, phase := .holding range }
  have weightSecond := @weight_put n R middle w { queue := (s.workers w).queue, phase := .holding range }
  rw [untouched] at second weightSecond
  refine ⟨quiet_put quietMiddle (by simp), ?_, [], by simp [State.put, ← put], ?_⟩
  · simp only [Worker.weight, phase, queue, Phase.weight, List.length_cons] at weightFirst weightSecond
    omega
  · simp only [Worker.load, phase, queue, Phase.held, ← Multiset.cons_coe, ← Multiset.singleton_add] at first second
    have gained : (middle.put w { queue := (s.workers w).queue, phase := .holding range }).load = middle.load + {range} := by
      apply add_right_cancel (b := ((s.workers w).queue : Multiset Range))
      rw [add_zero] at second
      rw [second]
      abel
    rw [gained, Multiset.coe_nil, add_zero]
    apply add_right_cancel (b := (rest : Multiset Range) + (s.workers victim).phase.held)
    simp only [Phase.held]
    rw [← first]
    abel

/-- A range is worked off. -/
theorem advances_finish {range : Range} (quiet : Quiet s) (phase : (s.workers w).phase = .holding range) :
    Advances task s { s.put w { queue := (s.workers w).queue, phase := .looking } with
      results := s.results ++ [(range.start, task range)] } := by
  have loads := @load_put n R s w { queue := (s.workers w).queue, phase := .looking }
  have weights := @weight_put n R s w { queue := (s.workers w).queue, phase := .looking }
  refine ⟨quiet_put quiet (by simp), ?_, [range], rfl, ?_⟩
  · simp only [Worker.weight, phase, Phase.weight] at weights
    show (s.put w { queue := (s.workers w).queue, phase := .looking }).weight < s.weight
    omega
  · simp only [Worker.load, phase, Phase.held, add_zero] at loads
    show s.load = (s.put w { queue := (s.workers w).queue, phase := .looking }).load + _
    apply add_right_cancel (b := ((s.workers w).queue : Multiset Range))
    rw [← loads, Multiset.coe_singleton]
    abel

theorem step_advances (quiet : Quiet s) (took : step task s event = some next) : Advances task s next := by
  cases event with
  | pop w =>
    simp only [step] at took
    split at took
    · next range rest phase queue =>
      cases took
      refine advances_put quiet (by simp) ?_ ?_
      · simp only [Worker.load, phase, queue, Phase.held, ← Multiset.cons_coe, ← Multiset.singleton_add]
        abel
      · simp [Worker.weight, phase, queue, Phase.weight]
        omega
    · cases took
  | stealBatch w extra =>
    simp only [step] at took
    split at took
    · next range rest phase queue injector =>
      cases took
      exact advances_stealBatch quiet phase queue injector
    · cases took
  | injectorEmpty w =>
    simp only [step] at took
    split at took
    · next phase queue injector =>
      cases took
      refine advances_put quiet (fun _ => ⟨rfl, injector⟩) ?_ ?_
      · simp [Worker.load, phase, queue, Phase.held]
      · simp [Worker.weight, phase, queue, Phase.weight]
    · cases took
  | steal w victim =>
    simp only [step] at took
    split at took
    · next range rest phase queue =>
      cases took
      exact advances_steal quiet phase queue
    · cases took
  | giveUp w =>
    simp only [step] at took
    split at took
    · next phase =>
      cases took
      refine advances_put quiet (fun _ => quiet w (.inl phase)) ?_ ?_
      · simp [Worker.load, phase, Phase.held]
      · simp [Worker.weight, phase, Phase.weight]
    · cases took
  | finish w =>
    simp only [step] at took
    split at took
    · next range phase =>
      cases took
      exact advances_finish quiet phase
    · cases took

end Loads

section Schedules

variable {n : Nat} {R : Type} {task : Range → R} {s final : State n R} {events : List (Event n)} {all : List Range}

/-- Over a whole schedule no range is lost or worked on twice, and the schedule is not longer than
the weight it begins with. -/
theorem runs_advance (quiet : Quiet s) (ran : runs (step task) s events = some final) :
    Quiet final ∧ events.length + final.weight ≤ s.weight ∧
      ∃ done : List Range, final.results = s.results ++ done.map (fun range => (range.start, task range)) ∧
        s.load = final.load + done := by
  induction events generalizing s with
  | nil =>
    cases ran
    exact ⟨quiet, by simp, [], by simp, (add_zero _).symm⟩
  | cons event events induction =>
    obtain ⟨next, took, rest⟩ := Option.bind_eq_some_iff.mp ran
    obtain ⟨quietNext, lighter, first, results, load⟩ := step_advances quiet took
    obtain ⟨quietFinal, bound, later, allResults, allLoad⟩ := induction quietNext rest
    refine ⟨quietFinal, by rw [List.length_cons]; omega, first ++ later, ?_, ?_⟩
    · rw [allResults, results, List.map_append, List.append_assoc]
    · rw [load, allLoad, ← Multiset.coe_add]
      abel

/-- A worker that has not left can take a step. -/
theorem exited_of_stuck (stuck : ∀ event, step task s event = none) (w : Fin n) : (s.workers w).phase = .exited := by
  cases phase : (s.workers w).phase with
  | exited => rfl
  | looking =>
    exfalso
    cases queue : (s.workers w).queue with
    | cons range rest => simpa [step, phase, queue] using stuck (.pop w)
    | nil =>
      cases injector : s.injector with
      | cons range rest => simpa [step, phase, queue, injector] using stuck (.stealBatch w 0)
      | nil => simpa [step, phase, queue, injector] using stuck (.injectorEmpty w)
  | sweeping => simpa [step, phase] using stuck (.giveUp w)
  | holding range => simpa [step, phase] using stuck (.finish w)

theorem load_of_stuck (some_worker : 0 < n) (quiet : Quiet s) (stuck : ∀ event, step task s event = none) : s.load = 0 := by
  have gone (w : Fin n) := quiet w (.inr (exited_of_stuck stuck w))
  have workers : ∑ w, (s.workers w).load = 0 := by
    refine Finset.sum_eq_zero fun w _ => ?_
    simp [Worker.load, (gone w).1, exited_of_stuck stuck w, Phase.held]
  rw [State.load, workers, (gone ⟨0, some_worker⟩).2]
  rfl

/-- Some schedule ends. -/
theorem exists_stuck (quiet : Quiet s) : ∃ events final, runs (step task) s events = some final ∧
    ∀ event, step task final event = none := by
  induction bound : s.weight using Nat.strong_induction_on generalizing s with
  | _ weight induction =>
    by_cases stuck : ∀ event, step task s event = none
    · exact ⟨[], s, rfl, stuck⟩
    · obtain ⟨event, moves⟩ := not_forall.mp stuck
      obtain ⟨next, took⟩ := Option.ne_none_iff_exists'.mp moves
      have advanced := step_advances quiet took
      obtain ⟨events, final, ran, ended⟩ := induction next.weight (bound ▸ advanced.lighter) advanced.quiet rfl
      exact ⟨event :: events, final, by rw [runs, took]; exact ran, ended⟩

theorem collect_eq {done : List Range} (ascending : all.Pairwise fun a b => a.start < b.start) (same : done.Perm all) :
    collect (done.map fun range => (range.start, task range)) = all.map task := by
  let entry (range : Range) : Nat × R := (range.start, task range)
  have sorted := (done.map entry).pairwise_insertionSort fun first second => first.1 ≤ second.1
  have perm : ((done.map entry).insertionSort fun first second => first.1 ≤ second.1).Perm (all.map entry) :=
    ((done.map entry).perm_insertionSort _).trans (same.map entry)
  have strict : (all.map entry).Pairwise fun first second => first.1 < second.1 := List.pairwise_map.mpr ascending
  have apart : (all.map entry).Pairwise fun first second => first.1 ≠ second.1 := strict.imp fun below => below.ne
  have apartSorted := (perm.pairwise_iff fun different => Ne.symm different).mpr apart
  have strictSorted := (sorted.and apartSorted).imp fun both => lt_of_le_of_ne both.1 both.2
  have equal := perm.eq_of_pairwise (fun _ _ _ _ below above => absurd below (lt_asymm above)) strictSorted strict
  rw [collect, equal, List.map_map]
  rfl

end Schedules

section Morsels

variable {size total : Nat}

def Range.indices (range : Range) : List Nat := List.range' range.start (range.stop - range.start)

theorem le_start_of_mem {rounds start : Nat} {range : Range} (inside : range ∈ ranges size total rounds start) :
    start ≤ range.start := by
  induction rounds generalizing start with
  | zero => cases inside
  | succ rounds induction =>
    rw [ranges] at inside
    split_ifs at inside with more
    · rcases List.mem_cons.mp inside with same | later
      · rw [same]
      · have := induction later
        omega
    · cases inside

theorem ranges_ascending (positive : 0 < size) (rounds start : Nat) :
    (ranges size total rounds start).Pairwise fun a b => a.start < b.start := by
  induction rounds generalizing start with
  | zero => exact .nil
  | succ rounds induction =>
    rw [ranges]
    split_ifs with more
    · refine List.pairwise_cons.mpr ⟨fun range inside => ?_, induction _⟩
      have := le_start_of_mem inside
      simp only
      omega
    · exact .nil

/-- The ranges are the rows, in order. -/
theorem ranges_indices (positive : 0 < size) (rounds start : Nat) (enough : total - start ≤ rounds) :
    (ranges size total rounds start).flatMap Range.indices = List.range' start (total - start) := by
  induction rounds generalizing start with
  | zero =>
    rw [Nat.le_zero.mp enough]
    rfl
  | succ rounds induction =>
    rw [ranges]
    split_ifs with more
    · rw [List.flatMap_cons, induction _ (by omega), Range.indices]
      have parts := @List.range'_append_1 start (min (start + size) total - start) (total - min (start + size) total)
      rw [show start + (min (start + size) total - start) = min (start + size) total by omega] at parts
      rw [parts]
      congr 1
      omega
    · rw [show total - start = 0 by omega]
      rfl

end Morsels

section Results

variable {R : Type} {task : Range → R} {scheduler : MorselScheduler} {total : Nat}

theorem quiet_initial (n : Nat) (all : List Range) : Quiet (initial n R all) := by
  intro w past
  rcases past with sweeping | exited
  · cases sweeping
  · cases exited

theorem load_initial (n : Nat) (all : List Range) : (initial n R all).load = all := by
  simp [State.load, initial, Worker.load, Phase.held]

theorem weight_initial (n : Nat) (all : List Range) : (initial n R all).weight = 4 * all.length + 2 * n := by
  simp [State.weight, initial, Worker.weight, Phase.weight]
  omega

/-- However the workers take turns, the chunks are those of the ranges, in order. -/
theorem parallelMapRanges_eq (some_worker : 0 < scheduler.workerThreads) (positive : 0 < scheduler.morselSize) (chunks : List R) :
    ParallelMapRanges scheduler total task chunks ↔ chunks = (scheduler.ranges total).map task := by
  rw [ParallelMapRanges]
  split_ifs with empty
  · rw [MorselScheduler.ranges, empty]
    rfl
  · have ordered {events : List (Event scheduler.workerThreads)} {final : State scheduler.workerThreads R}
        (ran : runs (step task) (initial scheduler.workerThreads R (scheduler.ranges total)) events = some final)
        (stuck : ∀ event, step task final event = none) : collect final.results = (scheduler.ranges total).map task := by
      obtain ⟨quiet, _, done, results, load⟩ := runs_advance (quiet_initial _ _) ran
      rw [load_initial, load_of_stuck some_worker quiet stuck, zero_add, Multiset.coe_eq_coe] at load
      rw [results]
      exact collect_eq (ranges_ascending positive _ _) load.symm
    constructor
    · intro ⟨events, final, ran, stuck, same⟩
      rw [same, ordered ran stuck]
    · intro same
      obtain ⟨events, final, ran, stuck⟩ :=
        @exists_stuck _ _ task _ (quiet_initial scheduler.workerThreads (scheduler.ranges total))
      exact ⟨events, final, ran, stuck, by rw [same, ordered ran stuck]⟩

end Results

end Neuralbase.Scheduler
