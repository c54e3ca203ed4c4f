import Zeroscript.GcBarrier
import Zeroscript.Lib.Runs

/-! # Every collection comes to its end

No reachable state of `schedule_gc` on many threads is stuck, and once every thread is in it, every
order of steps lets all of them out again after a bounded number of steps. `gc` runs once in each
round. -/
namespace Zeroscript.GcBarrier

def Awaited (s : State) : Prop := ∀ b, 0 < (s.barriers b).waiting → (s.barriers b).waiting < (s.barriers b).count

theorem Awaited.setBarrier {s : State} (h : Awaited s) {b : Side} {barrier : Barrier}
    (hbarrier : 0 < barrier.waiting → barrier.waiting < barrier.count) : Awaited (s.setBarrier b barrier) := by
  intro b'
  by_cases hb : b' = b
  · subst hb
    simpa only [State.setBarrier, Function.update_self] using hbarrier
  · simpa only [State.setBarrier, Function.update_of_ne hb] using h b'

theorem Awaited.openBarrier {s : State} (h : Awaited s) {b : Side} {i j : ℕ} {p : Phase} :
    Awaited (s.openBarrier i b p j) :=
  h.setBarrier fun hpos => absurd hpos (Nat.lt_irrefl 0)

theorem Awaited.step {s s' : State} (h : Awaited s) (hstep : Step s s') : Awaited s' := by
  cases hstep with
  | waitFirst hi hmore => exact h.setBarrier fun _ => hmore
  | waitSecond hi hmore => exact h.setBarrier fun _ => hmore
  | openFirst => exact h.openBarrier
  | openSecond => exact h.openBarrier
  | prepare hi => exact h.setBarrier fun hpos => absurd hpos (Nat.lt_irrefl 0)
  | _ => exact h

theorem reachable_awaited {s : State} (h : Reachable s) : Awaited s := by
  induction h with
  | refl => exact fun b hpos => absurd hpos (Nat.lt_irrefl 0)
  | tail _ hstep ih => exact ih.step hstep

theorem Awaited.exists_absent {s : State} (h : Awaited s) {b : Side} {total : ℕ}
    (hcount : (s.barriers b).count = total)
    (hwaiting : (s.barriers b).waiting = s.threads.countP (Phase.blockedAt b)) (hpos : 0 < total) :
    s.threads.countP (Phase.blockedAt b) < total := by
  have hless := h b
  by_cases hnone : (s.barriers b).waiting = 0
  · omega
  · have := hless (Nat.pos_of_ne_zero hnone)
    omega

theorem exists_unblocked (threads : List Phase) {b : Side}
    (h : threads.countP (Phase.blockedAt b) < threads.countP Phase.present) :
    ∃ p ∈ threads, p ≠ .ended ∧ ¬p.blockedAt b := by
  by_contra hnone
  simp only [not_exists, not_and, not_not] at hnone
  refine absurd h (Nat.not_lt.mpr (List.countP_mono_left fun p hp hpresent => ?_))
  refine hnone p hp ?_
  rintro rfl
  exact absurd hpresent Bool.false_ne_true

theorem room_at_barrier {s : State} {b : Side} {i : ℕ} {p : Phase} (hi : s.threads[i]? = some p)
    (hpresent : p.present) (hfree : ¬p.blockedAt b)
    (hcount : s.threads.countP Phase.present ≤ (s.barriers b).count)
    (hwaiting : (s.barriers b).waiting = s.threads.countP (Phase.blockedAt b)) :
    (s.barriers b).waiting + 1 ≤ (s.barriers b).count := by
  have hle : s.threads.countP (Phase.blockedAt b) ≤ s.threads.countP Phase.present :=
    List.countP_mono_left fun p _ => Phase.present_of_blockedAt
  have hne : s.threads.countP (Phase.blockedAt b) ≠ s.threads.countP Phase.present := fun heq =>
    hfree (Counting.of_countP_eq (fun _ => Phase.present_of_blockedAt) heq p (mem_of_getElem hi) hpresent)
  omega

theorem Step.of_arriving {s : State} {i : ℕ} {r : Reason} {b : Side}
    (hi : s.threads[i]? = some (.arriving r b))
    (hroom : (s.barriers b).waiting + 1 ≤ (s.barriers b).count) : ∃ s', Step s s' := by
  rcases Nat.lt_or_eq_of_le hroom with hmore | hlast
  · exact ⟨_, .waitFirst hi hmore⟩
  · refine ⟨_, .openFirst (j := i) hi hlast ⟨.waitingFirst r b, ?_, decide_eq_true rfl⟩⟩
    exact List.getElem?_set_self (List.getElem?_eq_some_iff.mp hi).1

theorem Step.of_returning {s : State} {i k : ℕ} {r : Reason} {b : Side}
    (hi : s.threads[i]? = some (.returning r b k))
    (hroom : (s.barriers b).waiting + 1 ≤ (s.barriers b).count) : ∃ s', Step s s' := by
  rcases Nat.lt_or_eq_of_le hroom with hmore | hlast
  · exact ⟨_, .waitSecond hi hmore⟩
  · refine ⟨_, .openSecond (j := i) hi hlast ⟨.waitingSecond r b k, ?_, decide_eq_true rfl⟩⟩
    exact List.getElem?_set_self (List.getElem?_eq_some_iff.mp hi).1

theorem Gathering.progress {s : State} (h : Gathering s) (hawaited : Awaited s)
    (hlive : ∃ p ∈ s.threads, p ≠ .ended) : ∃ s', Step s s' := by
  obtain ⟨p₀, hp₀, hne₀⟩ := hlive
  have hpos : 0 < s.threads.countP Phase.present :=
    List.countP_pos_iff.mpr ⟨p₀, hp₀, by cases p₀ <;> first | rfl | exact absurd rfl hne₀⟩
  have habsent := hawaited.exists_absent h.count h.waiting (by omega)
  by_cases hcreates : 0 < s.threads.countP Phase.creates
  · obtain ⟨p, hp, hcreating⟩ := List.countP_pos_iff.mp hcreates
    obtain ⟨i, hi⟩ := List.mem_iff_getElem?.mp hp
    have hphase : p = .creating := eq_of_beq hcreating
    subst hphase
    exact ⟨_, .create hi⟩
  · obtain ⟨p, hp, hne, hfree⟩ := exists_unblocked s.threads (b := side s.gcCount) (by omega)
    obtain ⟨i, hi⟩ := List.mem_iff_getElem?.mp hp
    have hbefore := h.phases p hp
    cases p with
    | running => exact ⟨_, .alloc hi⟩
    | entered r => exact ⟨_, .pick hi⟩
    | picked r b => exact ⟨_, .point hi⟩
    | pointed r => exact ⟨_, .arrive hi⟩
    | arriving r b =>
      obtain rfl : b = side s.gcCount := hbefore
      exact Step.of_arriving hi (room_at_barrier hi rfl hfree (by rw [h.count]; omega) h.waiting)
    | waitingFirst r b =>
      obtain rfl : b = side s.gcCount := hbefore
      exact absurd (decide_eq_true rfl) hfree
    | creating => exact ⟨_, .create hi⟩
    | ended => exact absurd rfl hne
    | _ => exact absurd hbefore id

theorem Collecting.progress {s : State} {b : Side} {k : ℕ} (h : Collecting s b k) (hawaited : Awaited s)
    (hlive : ∃ p ∈ s.threads, p ≠ .ended) : ∃ s', Step s s' := by
  obtain ⟨p₀, hp₀, hne₀⟩ := hlive
  have hpos : 0 < s.threads.countP Phase.present :=
    List.countP_pos_iff.mpr ⟨p₀, hp₀, by cases p₀ <;> first | rfl | exact absurd rfl hne₀⟩
  have habsent := hawaited.exists_absent h.count h.waiting hpos
  obtain ⟨p, hp, hne, hfree⟩ := exists_unblocked _ habsent
  obtain ⟨i, hi⟩ := List.mem_iff_getElem?.mp hp
  have hduring := h.phases p hp
  cases p with
  | elected r k' => exact ⟨_, .count hi⟩
  | counted r k' => exact ⟨_, .collect hi⟩
  | collecting r k' => exact ⟨_, .collected hi⟩
  | collected r k' => exact ⟨_, .prepare hi⟩
  | between r k' => exact ⟨_, .turnBack hi⟩
  | returning r b' k' =>
    obtain ⟨rfl, rfl⟩ : b' = b ∧ k' = k := hduring
    exact Step.of_returning hi (room_at_barrier hi rfl hfree h.count.ge h.waiting)
  | waitingSecond r b' k' =>
    obtain ⟨rfl, rfl⟩ : b' = b ∧ k' = k := hduring
    exact absurd (decide_eq_true rfl) hfree
  | ended => exact absurd rfl hne
  | _ => exact absurd hduring id

theorem progress {s : State} (hinv : Invariant s) (hawaited : Awaited s)
    (hlive : ∃ p ∈ s.threads, p ≠ .ended) : ∃ s', Step s s' := by
  rcases hinv.mode with hgathering | ⟨b, k, hcollecting⟩
  · exact hgathering.progress hawaited hlive
  · exact hcollecting.progress hawaited hlive

theorem two_threads_assembled :
    ∃ s, Reachable s ∧ s.threads = [Phase.waitingFirst .alloc .second, Phase.entered .alloc] := by
  have hinitial : Reachable initial := .refl
  have hstart := (hinitial.next (.start (i := 0) rfl)).next (.pick (i := 0) rfl)
  have harrive := (hstart.next (.point (i := 0) rfl)).next (.arrive (i := 0) rfl)
  have helected := harrive.next (.openFirst (i := 0) (j := 0) rfl rfl ⟨_, rfl, rfl⟩)
  have hcollect := (helected.next (.count (i := 0) rfl)).next (.collect (i := 0) rfl)
  have hprepare := (hcollect.next (.collected (i := 0) rfl)).next (.prepare (i := 0) rfl)
  have hback := hprepare.next (.turnBack (i := 0) rfl)
  have hcreating := hback.next (.openSecond (i := 0) (j := 0) rfl rfl ⟨_, rfl, rfl⟩)
  have htwo := hcreating.next (.create (i := 0) rfl)
  have halloc := (htwo.next (.alloc (i := 0) rfl)).next (.alloc (i := 1) rfl)
  have hpoint := (halloc.next (.pick (i := 0) rfl)).next (.point (i := 0) rfl)
  have harrived := hpoint.next (.arrive (i := 0) rfl)
  exact ⟨_, harrived.next (.waitFirst (i := 0) rfl (by decide)), rfl⟩

/-- How many steps of its own a thread is from leaving `schedule_gc`, at most. -/
def Phase.rank : Phase → ℕ
  | .entered _ => 12
  | .picked _ _ => 11
  | .pointed _ => 10
  | .arriving _ _ => 9
  | .waitingFirst _ _ => 8
  | .elected _ _ => 7
  | .counted _ _ => 6
  | .collecting _ _ => 5
  | .collected _ _ => 4
  | .between _ _ => 3
  | .returning _ _ _ => 2
  | .waitingSecond _ _ _ => 1
  | .running | .creating | .ended => 0

def State.rank (s : State) : ℕ := (s.threads.map Phase.rank).sum

/-- Every thread that has not ended is in `schedule_gc`. -/
def Assembled (threads : List Phase) : Prop :=
  (∃ p ∈ threads, p ≠ .ended) ∧ ∀ p ∈ threads, p = .ended ∨ p.reason?.isSome

def Dismissed (threads : List Phase) : Prop := ∀ p ∈ threads, p.reason? = none

theorem Assembled.inside {threads : List Phase} (h : Assembled threads) {i : ℕ} {p : Phase}
    (hi : threads[i]? = some p) (hlive : p ≠ .ended) : p.reason? ≠ none := by
  intro hnone
  rcases h.2 p (List.mem_of_getElem? hi) with rfl | hsome
  · exact hlive rfl
  · simp [hnone] at hsome

theorem Assembled.set {threads : List Phase} (h : Assembled threads) {i : ℕ} {p q : Phase}
    (hi : threads[i]? = some p) (hq : q.reason?.isSome) : Assembled (threads.set i q) := by
  refine ⟨⟨q, List.mem_set (List.getElem?_eq_some_iff.mp hi).1 q, ?_⟩, fun x hx => ?_⟩
  · rintro rfl
    cases hq
  · rcases List.mem_or_eq_of_mem_set hx with hx | rfl
    · exact h.2 x hx
    · exact Or.inr hq

theorem Phase.rank_le (p : Phase) : p.rank ≤ 12 := by
  cases p <;> simp [rank]

theorem Phase.rank_release_le (b : Side) (k : ℕ) (p : Phase) : (p.release b k).rank ≤ p.rank := by
  cases p with
  | waitingFirst r b' =>
    rw [release]
    split <;> simp [rank]
  | waitingSecond r b' k' =>
    rw [release]
    split
    · cases r <;> simp [rank, Reason.resume]
    · exact Nat.le_refl _
  | _ => exact Nat.le_refl _

theorem Phase.rank_elect_le {b : Side} (k : ℕ) {p : Phase} (h : p.blockedAt b) :
    (p.release b k).elect.rank ≤ p.rank := by
  cases p with
  | waitingFirst r b' =>
    obtain rfl : b' = b := of_decide_eq_true h
    simp [release, elect, rank]
  | waitingSecond r b' k' =>
    obtain rfl : b' = b := of_decide_eq_true h
    rw [release, if_pos rfl]
    cases r <;> simp [Reason.resume, elect, rank]
  | _ => exact absurd h Bool.false_ne_true

theorem rank_setPhase {s : State} {i : ℕ} {p q : Phase} (hi : s.threads[i]? = some p)
    (hless : q.rank < p.rank) : (s.setPhase i q).rank < s.rank := by
  have hsum := Counting.sum_set Phase.rank q hi
  simp only [State.rank, State.setPhase]
  omega

theorem rank_openBarrier {s : State} {i j : ℕ} {b : Side} {p q : Phase} (hi : s.threads[i]? = some p)
    (hless : q.rank < p.rank) (hj : ∃ p', (s.threads.set i q)[j]? = some p' ∧ p'.blockedAt b) :
    (s.openBarrier i b q j).rank < s.rank := by
  obtain ⟨p', hp', hblocked⟩ := hj
  have hopened := Counting.sum_map_modify_le (l := s.threads.set i q) Phase.rank
    (Phase.release b s.collections) Phase.elect (j := j)
    (fun x _ => Phase.rank_release_le b s.collections x)
    (fun x hx => Phase.rank_elect_le _ (by rwa [Option.some.inj (hx.symm.trans hp')]))
  exact Nat.lt_of_le_of_lt hopened (rank_setPhase hi hless)

/-- Once every thread is in `schedule_gc`, each step brings one of them closer to leaving it. -/
theorem Step.rank_lt {s s' : State} (h : Step s s') (hassembled : Assembled s.threads) : s'.rank < s.rank := by
  cases h with
  | alloc hi => exact absurd rfl (hassembled.inside hi (by decide))
  | start hi => exact absurd rfl (hassembled.inside hi (by decide))
  | finish hi => exact absurd rfl (hassembled.inside hi (by decide))
  | create hi => exact absurd rfl (hassembled.inside hi (by decide))
  | pick hi => exact rank_setPhase hi (by simp [Phase.rank])
  | point hi => exact rank_setPhase (s := { s with gcSafeBarrier := _ }) hi (by simp [Phase.rank])
  | arrive hi => exact rank_setPhase hi (by simp [Phase.rank])
  | waitFirst hi => exact rank_setPhase (s := s.setBarrier _ _) hi (by simp [Phase.rank])
  | openFirst hi _ hj => exact rank_openBarrier hi (by simp [Phase.rank]) hj
  | count hi => exact rank_setPhase (s := { s with gcCount := _ }) hi (by simp [Phase.rank])
  | collect hi => exact rank_setPhase hi (by simp [Phase.rank])
  | collected hi => exact rank_setPhase hi (by simp [Phase.rank])
  | prepare hi => exact rank_setPhase (s := s.prepare) hi (by simp [Phase.rank])
  | turnBack hi => exact rank_setPhase hi (by simp [Phase.rank])
  | waitSecond hi => exact rank_setPhase (s := s.setBarrier _ _) hi (by simp [Phase.rank])
  | openSecond hi _ hj => exact rank_openBarrier hi (by simp [Phase.rank]) hj

theorem Step.assembled {s s' : State} (h : Step s s') (hinv : Invariant s) (hassembled : Assembled s.threads) :
    Assembled s'.threads ∨ Dismissed s'.threads := by
  cases h with
  | alloc hi => exact absurd rfl (hassembled.inside hi (by decide))
  | start hi => exact absurd rfl (hassembled.inside hi (by decide))
  | finish hi => exact absurd rfl (hassembled.inside hi (by decide))
  | create hi => exact absurd rfl (hassembled.inside hi (by decide))
  | pick hi => exact Or.inl (hassembled.set hi rfl)
  | point hi => exact Or.inl (hassembled.set hi rfl)
  | arrive hi => exact Or.inl (hassembled.set hi rfl)
  | waitFirst hi => exact Or.inl (hassembled.set hi rfl)
  | count hi => exact Or.inl (hassembled.set hi rfl)
  | collect hi => exact Or.inl (hassembled.set hi rfl)
  | collected hi => exact Or.inl (hassembled.set hi rfl)
  | prepare hi => exact Or.inl (hassembled.set hi rfl)
  | turnBack hi => exact Or.inl (hassembled.set hi rfl)
  | waitSecond hi => exact Or.inl (hassembled.set hi rfl)
  | @openFirst i j r b hi hlast hj =>
    rcases hinv.mode with hgathering | ⟨b', k', hcollecting⟩
    · have hall := hgathering.all_wait hi hlast
      have helected := opened_elected (k := s.collections) hall hj
      obtain ⟨p, hp, hphase⟩ := List.countP_pos_iff.mp helected
      refine Or.inl ⟨⟨p, hp, ?_⟩, fun q hq => ?_⟩
      · rintro rfl
        cases hphase
      · rcases opened_first hall q hq with rfl | ⟨r', rfl⟩ | ⟨r', rfl⟩
        · exact Or.inl rfl
        · exact Or.inr rfl
        · exact Or.inr rfl
    · exact absurd (hcollecting.phases _ (mem_of_getElem hi)) id
  | @openSecond i j k r b hi hlast hj =>
    rcases hinv.mode with hgathering | ⟨b', k', hcollecting⟩
    · exact absurd (hgathering.phases _ (mem_of_getElem hi)) id
    · obtain ⟨rfl, rfl⟩ : b = b' ∧ k = k' := hcollecting.phases _ (mem_of_getElem hi)
      refine Or.inr fun q hq => ?_
      rcases opened_second (hcollecting.all_wait hi hlast) q hq with rfl | rfl | rfl <;> rfl

theorem rank_le_length (s : State) : s.rank ≤ 12 * s.threads.length := by
  have hsum := List.sum_le_card_nsmul (s.threads.map Phase.rank) 12 fun n hn => by
    obtain ⟨p, -, rfl⟩ := List.mem_map.mp hn
    exact p.rank_le
  simpa [State.rank, Nat.mul_comm] using hsum

/-- Once every live thread is in `schedule_gc`, they all come out of it again: no order of their steps
is stuck before that, and none takes more than twelve steps for each of them. -/
theorem collection_completes {s : State} (h : Reachable s) (hassembled : Assembled s.threads) :
    Runs.Within Step (fun s => Dismissed s.threads) (12 * s.threads.length) s := by
  refine Runs.Within.mono (Runs.Within.of_rank (I := fun s => Reachable s ∧ Assembled s.threads) State.rank
    ?_ ?_ ?_ ⟨h, hassembled⟩) (rank_le_length s)
  · intro s hs _
    exact progress (reachable_invariant hs.1) (reachable_awaited hs.1) hs.2.1
  · intro s s' hs _ hstep
    rcases hstep.assembled (reachable_invariant hs.1) hs.2 with hassembled' | hdismissed
    · exact Or.inl ⟨hs.1.next hstep, hassembled'⟩
    · exact Or.inr hdismissed
  · intro s s' hs _ hstep
    exact hstep.rank_lt hs.2

/-- Two threads come out after 24 steps at most. -/
theorem two_threads_complete : ∃ s, Reachable s ∧
    s.threads = [Phase.waitingFirst .alloc .second, Phase.entered .alloc] ∧
    Runs.Within Step (fun s => Dismissed s.threads) (12 * s.threads.length) s := by
  obtain ⟨s, hreachable, hthreads⟩ := two_threads_assembled
  have hassembled : Assembled s.threads := by
    rw [hthreads]
    refine ⟨⟨_, List.mem_cons_self, by decide⟩, fun p hp => Or.inr ?_⟩
    rcases List.mem_pair.mp hp with rfl | rfl <;> rfl
  exact ⟨s, hreachable, hthreads, collection_completes hreachable hassembled⟩

/-- No thread comes into `gc`. -/
def Quiet (threads threads' : List Phase) : Prop :=
  ∀ (i k : ℕ) (r : Reason), threads'[i]? = some (.collecting r k) → threads[i]? = some (.collecting r k)

inductive Collected : List ℕ → State → Prop where
  | initial : Collected [] initial
  | collect {log : List ℕ} {s : State} {i k : ℕ} {r : Reason} (h : Collected log s)
      (hi : s.threads[i]? = some (.counted r k)) :
      Collected (log ++ [k]) (s.setPhase i (.collecting r k))
  | other {log : List ℕ} {s s' : State} (h : Collected log s) (hstep : Step s s')
      (hquiet : Quiet s.threads s'.threads) : Collected log s'

theorem Collected.reachable {log : List ℕ} {s : State} (h : Collected log s) : Reachable s := by
  induction h with
  | initial => exact .refl
  | collect _ hi ih => exact ih.next (.collect hi)
  | other _ hstep _ ih => exact ih.next hstep

/-- The first `n` collections: the waits in between are the second ones. -/
def firstRounds (n : ℕ) : List ℕ := (List.range n).map (2 * ·)

theorem firstRounds_succ (n : ℕ) : firstRounds (n + 1) = firstRounds n ++ [2 * n] := by
  simp [firstRounds, List.range_succ]

def Phase.leadsOff : Phase → Bool
  | .elected _ _ | .counted _ _ => true
  | _ => false

theorem Phase.leadsOff_of_isElected {p : Phase} (h : p.isElected) : p.leadsOff := by
  cases p <;> first | rfl | cases h

theorem Phase.leads_of_leadsOff {p : Phase} (h : p.leadsOff) : p.leads := by
  cases p <;> first | rfl | cases h

/-- `n` rounds are over. -/
structure BetweenRounds (log : List ℕ) (s : State) (n : ℕ) : Prop where
  gathering : Gathering s
  collections : s.collections = 2 * n
  gcCount : s.gcCount = BitVec.ofNat 32 n
  log : log = firstRounds n

/-- `n` rounds are over, and one more has begun. -/
structure InRound (log : List ℕ) (s : State) (b : Side) (n : ℕ) : Prop where
  collecting : Collecting s b (2 * n)
  collections : s.collections = 2 * n + 1
  gcCount : s.gcCount = BitVec.ofNat 32 (if 0 < s.threads.countP Phase.isElected then n else n + 1)
  log : log = firstRounds (if 0 < s.threads.countP Phase.leadsOff then n else n + 1)

theorem gathering_of_before {s : State} (h : Gathering s ∨ ∃ b k, Collecting s b k) {p : Phase}
    (hp : p ∈ s.threads) (hphase : ∀ b k, ¬p.during b k) : Gathering s := by
  refine h.resolve_right ?_
  rintro ⟨b, k, hcollecting⟩
  exact hphase b k (hcollecting.phases p hp)

theorem BetweenRounds.step {log : List ℕ} {s s' : State} {n : ℕ} (h : BetweenRounds log s n)
    (hstep : Step s s') : BetweenRounds log s' n ∨ ∃ b, InRound log s' b n := by
  have hmode := h.gathering.step hstep
  have hset : ∀ {i : ℕ} {p q : Phase}, s.threads[i]? = some p → q ∈ s.threads.set i q := fun hi =>
    List.mem_set (List.getElem?_eq_some_iff.mp hi).1 _
  cases hstep with
  | alloc hi =>
    exact Or.inl ⟨gathering_of_before hmode (hset hi) fun _ _ => id, h.collections, h.gcCount, h.log⟩
  | start hi =>
    exact Or.inl ⟨gathering_of_before hmode (hset hi) fun _ _ => id, h.collections, h.gcCount, h.log⟩
  | finish hi =>
    exact Or.inl ⟨gathering_of_before hmode (hset hi) fun _ _ => id, h.collections, h.gcCount, h.log⟩
  | pick hi =>
    exact Or.inl ⟨gathering_of_before hmode (hset hi) fun _ _ => id, h.collections, h.gcCount, h.log⟩
  | point hi =>
    exact Or.inl ⟨gathering_of_before hmode (hset hi) fun _ _ => id, h.collections, h.gcCount, h.log⟩
  | arrive hi =>
    exact Or.inl ⟨gathering_of_before hmode (hset hi) fun _ _ => id, h.collections, h.gcCount, h.log⟩
  | waitFirst hi =>
    exact Or.inl ⟨gathering_of_before hmode (hset hi) fun _ _ => id, h.collections, h.gcCount, h.log⟩
  | create hi =>
    exact Or.inl ⟨h.gathering.create hi, h.collections, h.gcCount, h.log⟩
  | @openFirst i j r b hi hlast hj =>
    have hopen := h.gathering.open hi hlast hj
    have helected := opened_elected (k := s.collections) (h.gathering.all_wait hi hlast) hj
    have hleads := lt_of_lt_of_le helected (List.countP_mono_left fun p _ => Phase.leadsOff_of_isElected)
    rw [h.collections] at hopen
    refine Or.inr ⟨b, hopen, congrArg (· + 1) h.collections, ?_, ?_⟩
    · exact h.gcCount.trans (congrArg _ (if_pos helected).symm)
    · exact h.log.trans (congrArg _ (if_pos hleads).symm)
  | count hi => exact absurd (h.gathering.phases _ (mem_of_getElem hi)) id
  | collect hi => exact absurd (h.gathering.phases _ (mem_of_getElem hi)) id
  | collected hi => exact absurd (h.gathering.phases _ (mem_of_getElem hi)) id
  | prepare hi => exact absurd (h.gathering.phases _ (mem_of_getElem hi)) id
  | turnBack hi => exact absurd (h.gathering.phases _ (mem_of_getElem hi)) id
  | waitSecond hi => exact absurd (h.gathering.phases _ (mem_of_getElem hi)) id
  | openSecond hi => exact absurd (h.gathering.phases _ (mem_of_getElem hi)) id

theorem InRound.setPhase {log : List ℕ} {s s' : State} {b : Side} {n i : ℕ} {p q : Phase}
    (h : InRound log s b n) (hi : s.threads[i]? = some p) (hcollecting : Collecting s' b (2 * n))
    (hthreads : s'.threads = s.threads.set i q) (hcollections : s'.collections = s.collections)
    (hcount : s'.gcCount = s.gcCount) (helected : q.isElected = p.isElected)
    (hleads : q.leadsOff = p.leadsOff) : InRound log s' b n where
  collecting := hcollecting
  collections := hcollections.trans h.collections
  gcCount := by
    rw [hthreads, Counting.countP_set_of_eq hi helected, hcount]
    exact h.gcCount
  log := by
    rw [hthreads, Counting.countP_set_of_eq hi hleads]
    exact h.log

theorem InRound.count {log : List ℕ} {s : State} {b : Side} {n i k : ℕ} {r : Reason} (h : InRound log s b n)
    (hi : s.threads[i]? = some (.elected r k)) :
    InRound log ({ s with gcCount := s.gcCount + 1 }.setPhase i (.counted r k)) b n := by
  have hset := Counting.countP_set (f := Phase.isElected) (.counted r k) hi
  have hfew : s.threads.countP Phase.isElected ≤ s.threads.countP Phase.leads :=
    List.countP_mono_left fun p _ => Phase.leads_of_isElected
  have hleader := h.collecting.leader
  simp [Phase.isElected] at hset
  have hcount := h.gcCount
  rw [if_pos (by omega)] at hcount
  refine ⟨h.collecting.count_up hi, h.collections, ?_, ?_⟩
  · have hnone : (s.threads.set i (.counted r k)).countP Phase.isElected = 0 := by omega
    simp only [State.setPhase, hcount, hnone, Nat.lt_irrefl, if_false]
    exact (BitVec.ofNat_add n 1).symm
  · have hsame := Counting.countP_set_of_eq (f := Phase.leadsOff) (q := .counted r k) hi rfl
    simpa only [State.setPhase, hsame] using h.log

theorem InRound.collect {log : List ℕ} {s : State} {b : Side} {n i k : ℕ} {r : Reason}
    (h : InRound log s b n) (hi : s.threads[i]? = some (.counted r k)) :
    InRound (log ++ [k]) (s.setPhase i (.collecting r k)) b n := by
  obtain rfl : k = 2 * n := h.collecting.phases _ (mem_of_getElem hi)
  have hset := Counting.countP_set (f := Phase.leadsOff) (.collecting r (2 * n)) hi
  have hfew : s.threads.countP Phase.leadsOff ≤ s.threads.countP Phase.leads :=
    List.countP_mono_left fun p _ => Phase.leads_of_leadsOff
  have hleader := h.collecting.leader
  simp [Phase.leadsOff] at hset
  have hlog := h.log
  rw [if_pos (by omega)] at hlog
  have hduring : Phase.during b (2 * n) (.collecting r (2 * n)) := rfl
  refine ⟨h.collecting.setPhase hi hduring rfl rfl rfl rfl rfl rfl, h.collections, ?_, ?_⟩
  · have hsame := Counting.countP_set_of_eq (f := Phase.isElected) (q := .collecting r (2 * n)) hi rfl
    simpa only [State.setPhase, hsame] using h.gcCount
  · have hnone : (s.threads.set i (.collecting r (2 * n))).countP Phase.leadsOff = 0 := by omega
    simp only [State.setPhase, hlog, hnone, Nat.lt_irrefl, if_false, firstRounds_succ]

theorem InRound.open {log : List ℕ} {s : State} {b : Side} {n i j : ℕ} {r : Reason} (h : InRound log s b n)
    (hi : s.threads[i]? = some (.returning r b (2 * n)))
    (hlast : (s.barriers b).waiting + 1 = (s.barriers b).count) :
    BetweenRounds log (s.openBarrier i b (.waitingSecond r b (2 * n)) j) (n + 1) := by
  have hall := h.collecting.all_wait hi hlast
  have hnone : ∀ {f : Phase → Bool}, (∀ r, f (.waitingSecond r b (2 * n)) = false) →
      f (.returning r b (2 * n)) = false → f .ended = false → s.threads.countP f = 0 := by
    intro f hwaiting hreturning hended
    rw [← Counting.countP_set_of_eq (q := .waitingSecond r b (2 * n)) hi ((hwaiting r).trans hreturning.symm)]
    refine List.countP_eq_zero.mpr fun p hp => ?_
    rcases hall p hp with rfl | ⟨r', rfl⟩
    · simp [hended]
    · simp [hwaiting]
  refine ⟨h.collecting.open hi hlast, ?_, ?_, ?_⟩
  · simp only [State.openBarrier, h.collections]
    omega
  · have hcount := h.gcCount
    rwa [hnone (fun _ => rfl) rfl rfl, if_neg (Nat.lt_irrefl 0)] at hcount
  · have hlog := h.log
    rwa [hnone (fun _ => rfl) rfl rfl, if_neg (Nat.lt_irrefl 0)] at hlog

theorem InRound.step {log : List ℕ} {s s' : State} {b : Side} {n : ℕ} (h : InRound log s b n)
    (htotal : s.totalThreadCount = population s.threads) (hstep : Step s s')
    (hquiet : Quiet s.threads s'.threads) :
    InRound log s' b n ∨ BetweenRounds log s' (n + 1) := by
  cases hstep with
  | count hi => exact Or.inl (h.count hi)
  | collect hi =>
    have hsame := hquiet _ _ _ (List.getElem?_set_self (List.getElem?_eq_some_iff.mp hi).1)
    cases hsame.symm.trans hi
  | collected hi =>
    have hk := h.collecting.phases _ (mem_of_getElem hi)
    exact Or.inl (h.setPhase hi (h.collecting.setPhase hi hk rfl rfl rfl rfl rfl rfl) rfl rfl rfl rfl rfl)
  | prepare hi =>
    exact Or.inl (h.setPhase hi (h.collecting.prepare htotal hi) rfl rfl rfl rfl rfl)
  | turnBack hi =>
    have hk := h.collecting.phases _ (mem_of_getElem hi)
    exact Or.inl (h.setPhase hi (h.collecting.setPhase hi ⟨h.collecting.pointer, hk⟩ rfl rfl rfl rfl rfl rfl)
      rfl rfl rfl rfl rfl)
  | waitSecond hi => exact Or.inl (h.setPhase hi (h.collecting.block hi) rfl rfl rfl rfl rfl)
  | @openSecond i j k r b' hi hlast hj =>
    obtain ⟨rfl, rfl⟩ : b' = b ∧ k = 2 * n := h.collecting.phases _ (mem_of_getElem hi)
    exact Or.inr (h.open hi hlast)
  | alloc hi => exact absurd (h.collecting.phases _ (mem_of_getElem hi)) id
  | start hi => exact absurd (h.collecting.phases _ (mem_of_getElem hi)) id
  | finish hi => exact absurd (h.collecting.phases _ (mem_of_getElem hi)) id
  | pick hi => exact absurd (h.collecting.phases _ (mem_of_getElem hi)) id
  | point hi => exact absurd (h.collecting.phases _ (mem_of_getElem hi)) id
  | arrive hi => exact absurd (h.collecting.phases _ (mem_of_getElem hi)) id
  | waitFirst hi => exact absurd (h.collecting.phases _ (mem_of_getElem hi)) id
  | openFirst hi => exact absurd (h.collecting.phases _ (mem_of_getElem hi)) id
  | create hi => exact absurd (h.collecting.phases _ (mem_of_getElem hi)) id

theorem Collected.rounds {log : List ℕ} {s : State} (h : Collected log s) :
    ∃ n, BetweenRounds log s n ∨ ∃ b, InRound log s b n := by
  induction h with
  | initial =>
    have hgathering := initial_invariant.mode.resolve_right ?_
    · exact ⟨0, Or.inl ⟨hgathering, rfl, rfl, rfl⟩⟩
    · rintro ⟨b, k, hcollecting⟩
      exact hcollecting.phases _ List.mem_cons_self
  | collect _ hi ih =>
    obtain ⟨n, hbetween | ⟨b, hround⟩⟩ := ih
    · exact absurd (hbetween.gathering.phases _ (mem_of_getElem hi)) id
    · exact ⟨n, Or.inr ⟨b, hround.collect hi⟩⟩
  | other hcollected hstep hquiet ih =>
    obtain ⟨n, hbetween | ⟨b, hround⟩⟩ := ih
    · exact ⟨n, hbetween.step hstep⟩
    · rcases hround.step (reachable_invariant hcollected.reachable).total hstep hquiet with hround' | hbetween'
      · exact ⟨n, Or.inr ⟨b, hround'⟩⟩
      · exact ⟨n + 1, Or.inl hbetween'⟩

/-- `gc` is called once in each round, in the order of the rounds, by one thread: between two rounds
`gc_count` is the number of calls, and in a round the call is made as soon as no thread has it still to
come. -/
theorem gc_once_each_round {log : List ℕ} {s : State} (h : Collected log s) :
    log = firstRounds log.length ∧
    ∃ n, (s.collections = 2 * n ∧ log.length = n ∧ s.gcCount = BitVec.ofNat 32 n ∧
        ∀ p ∈ s.threads, p.before (side s.gcCount)) ∨
      (s.collections = 2 * n + 1 ∧
        log.length = (if 0 < s.threads.countP Phase.leadsOff then n else n + 1) ∧
        s.threads.countP Phase.leads ≤ 1 ∧ ∀ p ∈ s.threads, p.during s.gcSafeBarrier (2 * n)) := by
  have hlength : ∀ n, (firstRounds n).length = n := fun n => by simp [firstRounds]
  obtain ⟨n, hbetween | ⟨b, hround⟩⟩ := h.rounds
  · have hlog : log.length = n := (congrArg List.length hbetween.log).trans (hlength n)
    refine ⟨by rw [hlog]; exact hbetween.log, n, Or.inl ⟨hbetween.collections, hlog, hbetween.gcCount, ?_⟩⟩
    exact hbetween.gathering.phases
  · have hlog := (congrArg List.length hround.log).trans (hlength _)
    refine ⟨by rw [hlog]; exact hround.log, n, Or.inr ⟨hround.collections, hlog, ?_, ?_⟩⟩
    · exact hround.collecting.leader
    · rw [hround.collecting.pointer]
      exact hround.collecting.phases

theorem Quiet.set {threads : List Phase} {i : ℕ} {q : Phase}
    (hq : ∀ (r : Reason) (k : ℕ), q ≠ .collecting r k) : Quiet threads (threads.set i q) := by
  intro j k r hj
  rw [List.getElem?_set] at hj
  by_cases hij : i = j
  · rw [if_pos hij] at hj
    by_cases hlt : i < threads.length
    · rw [if_pos hlt] at hj
      exact absurd (Option.some.inj hj) (hq r k)
    · rw [if_neg hlt] at hj
      cases hj
  · rwa [if_neg hij] at hj

theorem eq_collecting_of_release {b : Side} {k k' : ℕ} {r : Reason} {p : Phase}
    (h : p.release b k = .collecting r k') : p = .collecting r k' := by
  cases p with
  | waitingFirst r₁ b₁ => by_cases hb : b₁ = b <;> simp [Phase.release, hb] at h
  | waitingSecond r₁ b₁ k₁ =>
    by_cases hb : b₁ = b <;> cases r₁ <;> simp [Phase.release, Reason.resume, hb] at h
  | _ => exact h

theorem eq_collecting_of_elect {k : ℕ} {r : Reason} {p : Phase} (h : p.elect = .collecting r k) :
    p = .collecting r k := by
  cases p with
  | between r₁ k₁ => cases h
  | _ => exact h

theorem Quiet.open {threads : List Phase} {i j k : ℕ} {b : Side} {q : Phase}
    (hq : ∀ (r : Reason) (k : ℕ), q ≠ .collecting r k) :
    Quiet threads (opened (threads.set i q) b k j) := by
  intro i' k' r' hi'
  refine Quiet.set (i := i) hq i' k' r' ?_
  rw [opened, List.getElem?_modify, List.getElem?_map, Option.map_eq_map, Option.map_eq_some_iff] at hi'
  obtain ⟨p', hp', hphase⟩ := hi'
  obtain ⟨p, hp, rfl⟩ := Option.map_eq_some_iff.mp hp'
  have hrelease : p.release b k = .collecting r' k' := by
    by_cases hj : j = i'
    · rw [if_pos hj] at hphase
      exact eq_collecting_of_elect hphase
    · rwa [if_neg hj] at hphase
  exact hp.trans (congrArg some (eq_collecting_of_release hrelease))

theorem Quiet.append {threads : List Phase} {i : ℕ} :
    Quiet threads (threads.set i .running ++ [Phase.running]) := by
  intro j k r hj
  refine Quiet.set (i := i) (q := .running) (by simp) j k r ?_
  rw [List.getElem?_append] at hj
  split at hj
  · exact hj
  · simp [List.getElem?_singleton] at hj

theorem Reachable.collected {s : State} (h : Reachable s) : ∃ log, Collected log s := by
  induction h with
  | refl => exact ⟨[], .initial⟩
  | @tail s s' _ hstep ih =>
    obtain ⟨log, hlog⟩ := ih
    cases hstep with
    | collect hi => exact ⟨_, hlog.collect hi⟩
    | openFirst hi hlast hj => exact ⟨log, hlog.other (.openFirst hi hlast hj) (.open (by simp))⟩
    | openSecond hi hlast hj => exact ⟨log, hlog.other (.openSecond hi hlast hj) (.open (by simp))⟩
    | alloc hi => exact ⟨log, hlog.other (.alloc hi) (.set (by simp))⟩
    | start hi => exact ⟨log, hlog.other (.start hi) (.set (by simp))⟩
    | finish hi => exact ⟨log, hlog.other (.finish hi) (.set (by simp))⟩
    | pick hi => exact ⟨log, hlog.other (.pick hi) (.set (by simp))⟩
    | point hi => exact ⟨log, hlog.other (.point hi) (.set (by simp))⟩
    | arrive hi => exact ⟨log, hlog.other (.arrive hi) (.set (by simp))⟩
    | waitFirst hi hmore => exact ⟨log, hlog.other (.waitFirst hi hmore) (.set (by simp))⟩
    | count hi => exact ⟨log, hlog.other (.count hi) (.set (by simp))⟩
    | collected hi => exact ⟨log, hlog.other (.collected hi) (.set (by simp))⟩
    | prepare hi => exact ⟨log, hlog.other (.prepare hi) (.set (by simp))⟩
    | turnBack hi => exact ⟨log, hlog.other (.turnBack hi) (.set (by simp))⟩
    | waitSecond hi hmore => exact ⟨log, hlog.other (.waitSecond hi hmore) (.set (by simp))⟩
    | create hi => exact ⟨log, hlog.other (.create hi) .append⟩

/-- The first call of the main thread. -/
theorem main_thread_collects_once : ∃ s, Collected [0] s ∧ s.threads = [Phase.collecting .alloc 0] ∧
    [0] = firstRounds [0].length ∧
    ∃ n, (s.collections = 2 * n ∧ [0].length = n ∧ s.gcCount = BitVec.ofNat 32 n ∧
        ∀ p ∈ s.threads, p.before (side s.gcCount)) ∨
      (s.collections = 2 * n + 1 ∧
        [0].length = (if 0 < s.threads.countP Phase.leadsOff then n else n + 1) ∧
        s.threads.countP Phase.leads ≤ 1 ∧ ∀ p ∈ s.threads, p.during s.gcSafeBarrier (2 * n)) := by
  have halloc := Collected.initial.other (.alloc (i := 0) rfl) (.set (by simp))
  have hpick := halloc.other (.pick (i := 0) rfl) (.set (by simp))
  have hpoint := hpick.other (.point (i := 0) rfl) (.set (by simp))
  have harrive := hpoint.other (.arrive (i := 0) rfl) (.set (by simp))
  have hopen := harrive.other (.openFirst (i := 0) (j := 0) rfl rfl ⟨_, rfl, rfl⟩) (.open (by simp))
  have hcount := hopen.other (.count (i := 0) rfl) (.set (by simp))
  have hcollect := hcount.collect (i := 0) rfl
  exact ⟨_, hcollect, rfl, gc_once_each_round hcollect⟩

end Zeroscript.GcBarrier
