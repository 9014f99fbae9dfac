import Fat16.Chain.Resolve

/-!
# Trails

`Table.trail` carries the clusters reached so far along with it, so that the program never copies
them. What it adds to them does not depend on them, and is studied here without them:

* `Table.onward` is the list of clusters that a trail adds, and `Table.halt` why it stops;
* `Table.trail_eq` gives the trail in terms of the two;
* `Table.trail_induction` is the induction along the links, with one case for each way in which a
  trail goes on or stops.

The last section compares two trails from one cluster whose sets differ. If the second set admits
the same clusters but for some, then its trail is the first one, cut before the first of these.
-/

namespace Fat16

namespace ClusterSet

/-- Recording a number takes this number from those admitted, and no other. -/
theorem admits_insert (s : ClusterSet) (c d : Cluster) :
    (s.insert c).admits d = (s.admits d && !decide (c = d)) := by
  rw [admits, admits, capacity_insert, contains_insert]
  by_cases hd : d < s.capacity <;> simp [hd]

theorem admits_empty (capacity c : Nat) : (empty capacity).admits c = decide (c < capacity) := by
  rw [admits, contains_empty, Bool.not_false, Bool.and_true]
  rfl

@[simp] theorem capacity_foldl_insert (l : List Cluster) (s : ClusterSet) :
    (l.foldl insert s).capacity = s.capacity := by
  induction l generalizing s with
  | nil => rfl
  | cons c l ih => rw [List.foldl_cons, ih, capacity_insert]

theorem contains_foldl_insert (l : List Cluster) (s : ClusterSet) (d : Cluster) :
    (l.foldl insert s).contains d =
      (s.contains d || (decide (d < s.capacity) && decide (d ∈ l))) := by
  induction l generalizing s with
  | nil => simp
  | cons c l ih =>
    rw [List.foldl_cons, ih, contains_insert, capacity_insert, Bool.or_assoc,
      ← Bool.and_or_distrib_left]
    simp only [List.mem_cons, Bool.decide_or, eq_comm]

/-- Numbers that are admitted are recorded. -/
theorem contains_foldl_insert_iff {l : List Cluster} {s : ClusterSet} {d : Cluster}
    (h : ∀ c ∈ l, s.admits c = true) :
    (l.foldl insert s).contains d = true ↔ s.contains d = true ∨ d ∈ l := by
  rw [contains_foldl_insert, Bool.or_eq_true, Bool.and_eq_true, decide_eq_true_eq,
    decide_eq_true_eq]
  exact or_congr_right (and_iff_right_of_imp fun hd ↦ (admits_iff.1 (h d hd)).1)

end ClusterSet

namespace Table

variable {t : Table} {current next c d : Cluster} {seen shared : ClusterSet}

/-! ## What a trail adds -/

/-- The clusters that the links lead to after `current`, as far as `seen` admits them. -/
def onward (t : Table) (current : Cluster) (seen : ClusterSet) : List Cluster :=
  (t.trail current seen #[]).clusters.toList

/-- Why the links lead no further than that. -/
def halt (t : Table) (current : Cluster) (seen : ClusterSet) : Trail.Stop :=
  (t.trail current seen #[]).stop

/-- Induction along the links from `current`: the table ends the chain, or the next cluster is
admitted and the trail goes on from there, or it is not admitted. -/
@[elab_as_elim]
theorem trail_induction (t : Table) {motive : Cluster → ClusterSet → Prop}
    (ended : ∀ current seen how, t.link current = .error how → motive current seen)
    (admitted : ∀ current seen next, t.link current = .ok next → seen.admits next = true →
      motive next (seen.insert next) → motive current seen)
    (blocked : ∀ current seen next, t.link current = .ok next → seen.admits next = false →
      motive current seen) (current : Cluster) (seen : ClusterSet) : motive current seen := by
  have along : ∀ path : Array Cluster, motive current seen := by
    intro path
    fun_induction t.trail current seen path with
    | case1 current seen path how h => exact ended current seen how h
    | case2 current seen path next h hn ih => exact admitted current seen next h hn ih
    | case3 current seen path next h hn =>
      exact blocked current seen next h (by simpa using hn)
  exact along #[]

/-- The path that a trail starts with stays in front of what it adds. -/
theorem trail_eq_append (t : Table) (current : Cluster) (seen : ClusterSet) (path : Array Cluster) :
    t.trail current seen path = { t.trail current seen #[] with
      clusters := path ++ (t.trail current seen #[]).clusters } := by
  -- the path grows along the trail, and so does the empty one that it is compared with
  induction current, seen using t.trail_induction generalizing path with
  | ended current seen how h => simp [trail_of_link_eq_error h]
  | admitted current seen next h hn ih =>
    rw [trail_of_admits h hn, trail_of_admits h hn, ih (path.push next), ih (#[].push next)]
    simp
  | blocked current seen next h hn => simp [trail_of_not_admits h hn]

theorem onward_of_link_eq_error {how : ChainEnd} (h : t.link current = .error how) :
    t.onward current seen = [] := by
  rw [onward, trail_of_link_eq_error h]

theorem onward_of_admits (h : t.link current = .ok next) (hn : seen.admits next = true) :
    t.onward current seen = next :: t.onward next (seen.insert next) := by
  rw [onward, trail_of_admits h hn, trail_eq_append]
  simp [onward]

theorem onward_of_not_admits (h : t.link current = .ok next) (hn : seen.admits next = false) :
    t.onward current seen = [] := by
  rw [onward, trail_of_not_admits h hn]

theorem halt_of_link_eq_error {how : ChainEnd} (h : t.link current = .error how) :
    t.halt current seen = .ended how := by
  rw [halt, trail_of_link_eq_error h]

theorem halt_of_admits (h : t.link current = .ok next) (hn : seen.admits next = true) :
    t.halt current seen = t.halt next (seen.insert next) := by
  rw [halt, trail_of_admits h hn, trail_eq_append]
  rfl

theorem halt_of_not_admits (h : t.link current = .ok next) (hn : seen.admits next = false) :
    t.halt current seen = .blocked next := by
  rw [halt, trail_of_not_admits h hn]

/-- The set of a trail is the one it started with, with what it added recorded. -/
theorem seen_trail (t : Table) (current : Cluster) (seen : ClusterSet) :
    (t.trail current seen #[]).seen = (t.onward current seen).foldl .insert seen := by
  induction current, seen using t.trail_induction with
  | ended current seen how h => rw [onward_of_link_eq_error h, trail_of_link_eq_error h]; rfl
  | admitted current seen next h hn ih =>
    rw [onward_of_admits h hn, trail_of_admits h hn, trail_eq_append, List.foldl_cons, ← ih]
  | blocked current seen next h hn =>
    rw [onward_of_not_admits h hn, trail_of_not_admits h hn]; rfl

theorem trail_eq (t : Table) (current : Cluster) (seen : ClusterSet) (path : Array Cluster) :
    t.trail current seen path = ⟨path ++ (t.onward current seen).toArray,
      (t.onward current seen).foldl .insert seen, t.halt current seen⟩ := by
  rw [trail_eq_append, ← seen_trail]
  simp [onward, halt]

/-! ## Where a trail leads -/

/-- A trail leads to clusters of the table only, and to those that the set admits. -/
theorem admits_of_mem_onward (h : c ∈ t.onward current seen) :
    t.IsData c ∧ seen.admits c = true := by
  induction current, seen using t.trail_induction with
  | ended current seen how hl => simp [onward_of_link_eq_error hl] at h
  | admitted current seen next hl hn ih =>
    rw [onward_of_admits hl hn, List.mem_cons] at h
    rcases h with rfl | h
    · exact ⟨isData_of_link_eq_ok hl, hn⟩
    · obtain ⟨hd, ha⟩ := ih h
      rw [ClusterSet.admits_insert, Bool.and_eq_true] at ha
      exact ⟨hd, ha.1⟩
  | blocked current seen next hl hn => simp [onward_of_not_admits hl hn] at h

theorem nodup_onward (t : Table) (current : Cluster) (seen : ClusterSet) :
    (t.onward current seen).Nodup := by
  induction current, seen using t.trail_induction with
  | ended current seen how h => simp [onward_of_link_eq_error h]
  | admitted current seen next h hn ih =>
    rw [onward_of_admits h hn, List.nodup_cons]
    refine ⟨fun hmem ↦ ?_, ih⟩
    have := (admits_of_mem_onward hmem).2
    simp [ClusterSet.admits_insert] at this
  | blocked current seen next h hn => simp [onward_of_not_admits h hn]

/-- Every cluster that a trail leads to is the next one of a cluster before it. -/
theorem exists_link_of_mem_onward (h : c ∈ t.onward current seen) :
    ∃ d ∈ current :: t.onward current seen, t.link d = .ok c := by
  induction current, seen using t.trail_induction with
  | ended current seen how hl => simp [onward_of_link_eq_error hl] at h
  | admitted current seen next hl hn ih =>
    rw [onward_of_admits hl hn] at h ⊢
    rcases List.mem_cons.1 h with rfl | h
    · exact ⟨current, List.mem_cons_self, hl⟩
    · obtain ⟨d, hd, hdc⟩ := ih h
      exact ⟨d, List.mem_cons_of_mem _ hd, hdc⟩
  | blocked current seen next hl hn => simp [onward_of_not_admits hl hn] at h

/-- A trail that starts in a class that no link leaves stays in this class. -/
theorem forall_mem_onward_of_closed {S : Cluster → Prop}
    (hS : ∀ d c, S d → t.link d = .ok c → S c) (h : S current) :
    ∀ c ∈ t.onward current seen, S c := by
  induction current, seen using t.trail_induction with
  | ended current seen how hl => simp [onward_of_link_eq_error hl]
  | admitted current seen next hl hn ih =>
    have hnext := hS current next h hl
    rw [onward_of_admits hl hn, List.forall_mem_cons]
    exact ⟨hnext, ih hnext⟩
  | blocked current seen next hl hn => simp [onward_of_not_admits hl hn]

/-- A link from a cluster of a trail stays in the trail, or leads to a cluster not admitted. -/
theorem mem_onward_of_link (hd : d ∈ current :: t.onward current seen) (h : t.link d = .ok c) :
    c ∈ t.onward current seen ∨ seen.admits c = false := by
  induction current, seen using t.trail_induction with
  | ended current seen how hl =>
    rw [onward_of_link_eq_error hl, List.mem_singleton] at hd
    rw [hd, hl] at h
    cases h
  | admitted current seen next hl hn ih =>
    rw [onward_of_admits hl hn] at hd ⊢
    rcases List.mem_cons.1 hd with rfl | hd
    · obtain rfl : next = c := by rw [hl] at h; injection h
      exact .inl List.mem_cons_self
    · rcases ih hd with hc | hc
      · exact .inl (List.mem_cons_of_mem _ hc)
      · rw [ClusterSet.admits_insert, Bool.and_eq_false_iff] at hc
        -- what is not admitted next was not admitted before, or is what has just been recorded
        rcases hc with hc | hc
        · exact .inr hc
        · exact .inl (by simp_all)
  | blocked current seen next hl hn =>
    rw [onward_of_not_admits hl hn, List.mem_singleton] at hd
    obtain rfl : next = c := by rw [hd, hl] at h; injection h
    exact .inr hn

/-- What ends a trail is said by the entry of its last cluster. -/
theorem exists_getLast?_of_halt_eq_ended {how : ChainEnd} (h : t.halt current seen = .ended how) :
    ∃ d, (current :: t.onward current seen).getLast? = some d ∧ t.link d = .error how := by
  induction current, seen using t.trail_induction with
  | ended current seen how' hl =>
    rw [halt_of_link_eq_error hl] at h
    cases h
    exact ⟨current, by rw [onward_of_link_eq_error hl, List.getLast?_singleton], hl⟩
  | admitted current seen next hl hn ih =>
    rw [halt_of_admits hl hn] at h
    obtain ⟨d, hd, hdh⟩ := ih h
    exact ⟨d, by rw [onward_of_admits hl hn, List.getLast?_cons_cons, hd], hdh⟩
  | blocked current seen next hl hn =>
    rw [halt_of_not_admits hl hn] at h
    cases h

/-- What blocks a trail is where the link of its last cluster leads. -/
theorem exists_getLast?_of_halt_eq_blocked (h : t.halt current seen = .blocked c) :
    ∃ d, (current :: t.onward current seen).getLast? = some d ∧ t.link d = .ok c := by
  induction current, seen using t.trail_induction with
  | ended current seen how hl =>
    rw [halt_of_link_eq_error hl] at h
    cases h
  | admitted current seen next hl hn ih =>
    rw [halt_of_admits hl hn] at h
    obtain ⟨d, hd, hdc⟩ := ih h
    exact ⟨d, by rw [onward_of_admits hl hn, List.getLast?_cons_cons, hd], hdc⟩
  | blocked current seen next hl hn =>
    rw [halt_of_not_admits hl hn] at h
    cases h
    exact ⟨current, by rw [onward_of_not_admits hl hn, List.getLast?_singleton], hl⟩

/-- What blocks a trail is a cluster that was not admitted from the start or has been reached. -/
theorem isData_of_halt_eq_blocked (h : t.halt current seen = .blocked c) :
    t.IsData c ∧ (seen.admits c = false ∨ c ∈ t.onward current seen) := by
  induction current, seen using t.trail_induction with
  | ended current seen how hl => rw [halt_of_link_eq_error hl] at h; cases h
  | admitted current seen next hl hn ih =>
    rw [halt_of_admits hl hn] at h
    obtain ⟨hd, hc⟩ := ih h
    refine ⟨hd, ?_⟩
    rw [onward_of_admits hl hn, List.mem_cons]
    rw [ClusterSet.admits_insert, Bool.and_eq_false_iff] at hc
    rcases hc with (hc | hc) | hc
    · exact .inl hc
    · exact .inr (.inl (by simp_all))
    · exact .inr (.inr hc)
  | blocked current seen next hl hn =>
    rw [halt_of_not_admits hl hn] at h
    cases h
    exact ⟨isData_of_link_eq_ok hl, .inl hn⟩

/-- A trail that is blocked goes on from each of its clusters: to the next one, or to what blocks
it. -/
theorem exists_link_of_halt_eq_blocked (h : t.halt current seen = .blocked c)
    (hd : d ∈ current :: t.onward current seen) :
    ∃ e ∈ c :: t.onward current seen, t.link d = .ok e := by
  induction current, seen using t.trail_induction with
  | ended current seen how hl => rw [halt_of_link_eq_error hl] at h; cases h
  | admitted current seen next hl hn ih =>
    rw [halt_of_admits hl hn] at h
    rw [onward_of_admits hl hn] at hd ⊢
    rcases List.mem_cons.1 hd with rfl | hd
    · exact ⟨next, List.mem_cons_of_mem _ List.mem_cons_self, hl⟩
    · obtain ⟨e, he, hde⟩ := ih h hd
      refine ⟨e, ?_, hde⟩
      rcases List.mem_cons.1 he with rfl | he
      · exact List.mem_cons_self
      · exact List.mem_cons_of_mem _ (List.mem_cons_of_mem _ he)
  | blocked current seen next hl hn =>
    rw [halt_of_not_admits hl hn] at h
    cases h
    rw [onward_of_not_admits hl hn, List.mem_singleton] at hd
    exact ⟨c, List.mem_cons_self, by rw [hd, hl]⟩

/-- Where the table ends a chain, the trail ends. -/
theorem halt_of_mem_of_link_eq_error {how : ChainEnd} (hd : d ∈ current :: t.onward current seen)
    (h : t.link d = .error how) : t.halt current seen = .ended how := by
  induction current, seen using t.trail_induction with
  | ended current seen how' hl =>
    rw [onward_of_link_eq_error hl, List.mem_singleton] at hd
    rw [halt_of_link_eq_error hl, Except.error.inj (hl.symm.trans (hd ▸ h))]
  | admitted current seen next hl hn ih =>
    rw [onward_of_admits hl hn] at hd
    rw [halt_of_admits hl hn]
    rcases List.mem_cons.1 hd with rfl | hd
    · rw [hl] at h
      cases h
    · exact ih hd
  | blocked current seen next hl hn =>
    rw [onward_of_not_admits hl hn, List.mem_singleton] at hd
    rw [hd, hl] at h
    cases h

/-- A trail with a cluster of a class that no link leaves comes to its end in the class: at a
cluster that ends the chain, or at one that blocks it. -/
theorem halt_of_closed {S : Cluster → Prop} (hS : ∀ d c, S d → t.link d = .ok c → S c)
    (hd : d ∈ current :: t.onward current seen) (h : S d) :
    (∃ how e, t.halt current seen = .ended how ∧ S e ∧ t.link e = .error how) ∨
      ∃ c, t.halt current seen = .blocked c ∧ S c := by
  induction current, seen using t.trail_induction generalizing d with
  | ended current seen how hl =>
    rw [onward_of_link_eq_error hl, List.mem_singleton] at hd
    exact .inl ⟨how, current, halt_of_link_eq_error hl, hd ▸ h, hl⟩
  | admitted current seen next hl hn ih =>
    rw [onward_of_admits hl hn] at hd
    rw [halt_of_admits hl hn]
    rcases List.mem_cons.1 hd with rfl | hd
    · exact ih List.mem_cons_self (hS d next h hl)
    · exact ih hd h
  | blocked current seen next hl hn =>
    rw [onward_of_not_admits hl hn, List.mem_singleton] at hd
    exact .inr ⟨next, halt_of_not_admits hl hn, hS current next (hd ▸ h) hl⟩

/-! ## Two sets

The sets meet the same links in the same order, so the trails agree until the first cluster that
only one of the sets admits. Recording a cluster in both keeps the difference between them, which
is what the induction needs. -/

theorem admits_insert_of_agree {free : Cluster → Bool}
    (h : ∀ c, t.IsData c → shared.admits c = (seen.admits c && free c)) (next : Cluster) :
    ∀ c, t.IsData c →
      (shared.insert next).admits c = ((seen.insert next).admits c && free c) := by
  intro c hc
  rw [ClusterSet.admits_insert, ClusterSet.admits_insert, h c hc, Bool.and_right_comm]

theorem onward_eq_takeWhile {free : Cluster → Bool}
    (h : ∀ c, t.IsData c → shared.admits c = (seen.admits c && free c)) :
    t.onward current shared = (t.onward current seen).takeWhile free := by
  -- along the links of the larger set; where it stops, so does the smaller one
  induction current, seen using t.trail_induction generalizing shared with
  | ended current seen how hl =>
    rw [onward_of_link_eq_error hl, onward_of_link_eq_error hl, List.takeWhile_nil]
  | admitted current seen next hl hn ih =>
    have hs := h next (isData_of_link_eq_ok hl)
    rw [hn, Bool.true_and] at hs
    rw [onward_of_admits hl hn, List.takeWhile_cons]
    cases hf : free next with
    | true => rw [onward_of_admits hl (hs.trans hf), ih (admits_insert_of_agree h next), if_pos rfl]
    | false => rw [onward_of_not_admits hl (hs.trans hf), if_neg Bool.false_ne_true]
  | blocked current seen next hl hn =>
    have hs := h next (isData_of_link_eq_ok hl)
    rw [hn, Bool.false_and] at hs
    rw [onward_of_not_admits hl hn, onward_of_not_admits hl hs, List.takeWhile_nil]

theorem halt_eq_blocked_or {free : Cluster → Bool}
    (h : ∀ c, t.IsData c → shared.admits c = (seen.admits c && free c)) :
    t.halt current shared = match (t.onward current seen).find? fun c ↦ !free c with
      | none => t.halt current seen
      | some c => .blocked c := by
  induction current, seen using t.trail_induction generalizing shared with
  | ended current seen how hl =>
    rw [onward_of_link_eq_error hl, halt_of_link_eq_error hl, halt_of_link_eq_error hl,
      List.find?_nil]
  | admitted current seen next hl hn ih =>
    have hs := h next (isData_of_link_eq_ok hl)
    rw [hn, Bool.true_and] at hs
    rw [onward_of_admits hl hn, List.find?_cons]
    cases hf : free next with
    | true =>
      rw [halt_of_admits hl (hs.trans hf), ih (admits_insert_of_agree h next),
        halt_of_admits hl hn, Bool.not_true]
    | false => rw [halt_of_not_admits hl (hs.trans hf), Bool.not_false]
  | blocked current seen next hl hn =>
    have hs := h next (isData_of_link_eq_ok hl)
    rw [hn, Bool.false_and] at hs
    rw [onward_of_not_admits hl hn, halt_of_not_admits hl hs, halt_of_not_admits hl hn,
      List.find?_nil]

end Table

end Fat16
