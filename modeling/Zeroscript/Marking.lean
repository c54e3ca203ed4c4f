import Zeroscript.Collector

/-! # What a collection marks

The marker goes as deep as it has to, so it marks just what can be reached by the edges it looks
at. -/
namespace Zeroscript

section

variable {α : Type}

def Collector.rootNodes (g : Collector) (m : Machine α) : List Node :=
  g.roots.flatMap m.stateNodes ++ m.data.knownTypes.flatMap fun t => t.2.staticNodes m.data

def Machine.nodes (m : Machine α) : Finset Node :=
  (Finset.range m.data.objects.length).image (fun x => Node.object (x + 1)) ∪
    ((Finset.range m.control.nextContext).erase 0).image Node.context

theorem Machine.card_nodes (m : Machine α) :
    m.nodes.card ≤ m.data.objects.length + m.control.nextContext := by
  refine le_trans (Finset.card_union_le _ _) (Nat.add_le_add ?_ ?_)
  · exact le_trans Finset.card_image_le (le_of_eq (Finset.card_range _))
  · refine le_trans Finset.card_image_le (le_trans (Finset.card_le_card (Finset.erase_subset _ _)) ?_)
    exact le_of_eq (Finset.card_range _)

theorem Machine.object_mem_nodes {m : Machine α} {address : Addr} :
    .object address ∈ m.nodes ↔ 0 < address ∧ address ≤ m.data.objects.length := by
  unfold Machine.nodes
  constructor
  · intro h
    rcases Finset.mem_union.mp h with h | h
    · obtain ⟨x, hx, heq⟩ := Finset.mem_image.mp h
      cases heq
      exact ⟨Nat.succ_pos x, Finset.mem_range.mp hx⟩
    · obtain ⟨x, -, heq⟩ := Finset.mem_image.mp h
      cases heq
  · rintro ⟨hpos, hle⟩
    obtain ⟨x, rfl⟩ := Nat.exists_eq_succ_of_ne_zero (Nat.ne_of_gt hpos)
    exact Finset.mem_union_left _ (Finset.mem_image_of_mem _ (Finset.mem_range.mpr hle))

theorem Machine.context_mem_nodes {m : Machine α} {c : ContextId} :
    .context c ∈ m.nodes ↔ 0 < c ∧ c < m.control.nextContext := by
  unfold Machine.nodes
  constructor
  · intro h
    rcases Finset.mem_union.mp h with h | h
    · obtain ⟨x, -, heq⟩ := Finset.mem_image.mp h
      cases heq
    · obtain ⟨x, hx, heq⟩ := Finset.mem_image.mp h
      cases heq
      obtain ⟨hne, hlt⟩ := Finset.mem_erase.mp hx
      exact ⟨Nat.pos_of_ne_zero hne, Finset.mem_range.mp hlt⟩
  · rintro ⟨hpos, hlt⟩
    refine Finset.mem_union_right _ (Finset.mem_image_of_mem _ ?_)
    exact Finset.mem_erase.mpr ⟨Nat.ne_of_gt hpos, Finset.mem_range.mpr hlt⟩

theorem mem_registerNodes {d : Data α} {r : Reg α} {n : Node} (h : n ∈ d.registerNodes r) :
    ∃ address o, n = .object address ∧ r.val = .raw address ∧ r.type ≠ .number ∧
      r.type ≠ .nativeFunc ∧ d.object r = some o := by
  unfold Data.registerNodes at h
  split at h
  · cases h
  · cases h
  · rename_i address o hval ho hnumber hnative
    exact ⟨address, o, List.mem_singleton.mp h, hval, hnumber, hnative, ho⟩
  · cases h

theorem registerNodes_nodes {m : Machine α} {r : Reg α} {n : Node}
    (h : n ∈ m.data.registerNodes r) : n ∈ m.nodes := by
  obtain ⟨address, o, rfl, hval, -, -, ho⟩ := mem_registerNodes h
  unfold Data.object at ho
  rw [hval] at ho
  cases address with
  | zero => cases ho
  | succ address =>
    obtain ⟨hlt, -⟩ := List.getElem?_eq_some_iff.mp ho
    exact Machine.object_mem_nodes.mpr ⟨Nat.succ_pos _, hlt⟩

theorem contextNodes_nodes {m : Machine α} {c : ContextId} {n : Node}
    (h : n ∈ m.control.contextNodes c) : n ∈ m.nodes := by
  unfold ControlState.contextNodes at h
  split at h
  · cases h
  · rename_i hc
    obtain ⟨hpos, hlt⟩ := not_or.mp hc
    rw [List.mem_singleton.mp h]
    exact Machine.context_mem_nodes.mpr ⟨Nat.pos_of_ne_zero hpos, Nat.lt_of_not_le hlt⟩

theorem stateNodes_nodes {m : Machine α} {s : StateId} {n : Node} (h : n ∈ m.stateNodes s) :
    n ∈ m.nodes := by
  unfold Machine.stateNodes at h
  rcases List.mem_append.mp h with h | h
  · rcases List.mem_append.mp h with h | h
    · exact contextNodes_nodes h
    · exact contextNodes_nodes h
  · obtain ⟨i, -, h⟩ := List.mem_flatMap.mp h
    exact registerNodes_nodes h

theorem rootNodes_nodes {m : Machine α} {g : Collector} {n : Node} (h : n ∈ g.rootNodes m) :
    n ∈ m.nodes := by
  unfold Collector.rootNodes at h
  rcases List.mem_append.mp h with h | h
  · obtain ⟨s, -, h⟩ := List.mem_flatMap.mp h
    exact stateNodes_nodes h
  · obtain ⟨t, -, h⟩ := List.mem_flatMap.mp h
    unfold TypeInfo.staticNodes at h
    obtain ⟨name, -, h⟩ := List.mem_flatMap.mp h
    obtain ⟨r, -, h⟩ := List.mem_flatMap.mp h
    exact registerNodes_nodes h

variable [NumOps α]

def Reached (m : Machine α) (g : Collector) : Node → Prop :=
  DepthFirst.Reach (m.nextNodes g.localsCount) (g.rootNodes m)

theorem nextNodes_nodes {m : Machine α} {localsCount : ContextId → ℕ} {x n : Node}
    (h : n ∈ m.nextNodes localsCount x) : n ∈ m.nodes := by
  unfold Machine.nextNodes at h
  split at h
  · split at h
    · obtain ⟨entry, -, h⟩ := List.mem_flatMap.mp h
      exact registerNodes_nodes h
    · exact stateNodes_nodes h
    · rcases List.mem_append.mp h with h | h
      · exact contextNodes_nodes h
      · exact stateNodes_nodes h
    · cases h
  · rcases List.mem_append.mp h with h | h
    · rcases List.mem_append.mp h with h | h
      · obtain ⟨i, -, h⟩ := List.mem_flatMap.mp h
        exact registerNodes_nodes h
      · exact contextNodes_nodes h
    · exact contextNodes_nodes h

/-- A collection marks what can be reached. -/
theorem marked_iff {m : Machine α} {g : Collector} {n : Node} : n ∈ g.marked m ↔ Reached m g n :=
  DepthFirst.mem_visitAll_iff (fun _ _ _ hy => nextNodes_nodes hy) (fun _ hx => rootNodes_nodes hx)
    m.card_nodes

end

end Zeroscript
