import Mathlib
import TaggedBytecode.Disassembly.ValueStats
import TaggedBytecode.Proofs.Collection.Ranking
import TaggedBytecode.Proofs.Program.Stats

/-!
# The Exactness of Value Statistics

The statistics of a program are told by the values of its slots alone. Every slot is in one of
three groups; the distinct values, the least and the greatest are those of the summary, which
keeps an ordered set where the statistics keep a tally and look through the slots; and the most
frequent values begin the only ranking that there is. So neither the order of the slots nor the
order in which a tally lists its entries makes a difference.

## Main results

* `sum_slotGroups` — the groups share the slots out.
* `length_distinctSlots` — a tally and a summary count the same values.
* `ValueStats.ofTally_eq` — the order of slots and of entries makes no difference.
* `ValueStats.exact_and_canonical` — what the statistics of a program are.
-/

namespace TaggedBytecode

/-! ### Groups -/

/-- **Every slot is in one group.** -/
theorem sum_slotGroups (slots : List Int32) :
    (slots.countP fun v => slotGroup v = .smallInt) +
        (slots.countP fun v => slotGroup v = .likelyOpcode) +
        (slots.countP fun v => slotGroup v = .other) = slots.length := by
  induction slots with
  | nil => rfl
  | cons v rest ih =>
      simp only [List.countP_cons, List.length_cons]
      cases slotGroup v <;> simp <;> omega

/-- A tally has as many entries as there are distinct values. -/
theorem length_distinctSlots (slots : List Int32) :
    (distinctSlots slots).length = (Tally.ofList slots).counts.length := by
  have hkeys := (Tally.keys_ofList_perm slots).length_eq
  rw [List.length_map] at hkeys
  rw [(distinctSlots_perm slots).length_eq, hkeys]

/-! ### Statistics -/

namespace ValueStats

variable {slots : List Int32} {top : Nat} {opcodes : OpcodeMap} {markers : Markers}

/-- **The order of slots and of entries makes no difference.** Statistics from a tally of the
slots are those of any reordering of the slots, however the tally lists its entries. -/
theorem ofTally_eq {tally : Tally Int32} {program : Program}
    (hslots : slots.Perm program.toList)
    (htally : tally.counts.Perm (Tally.ofList slots).counts) :
    ofTally tally slots top opcodes markers = of program top opcodes markers := by
  rw [Tally.ofList_eq_of_perm hslots] at htally
  have hranking : tally.ranking = (Tally.ofList program.toList).ranking :=
    (Tally.ranks_of_perm htally).unique (Tally.ranks_ofList _)
  have hmem : ∀ v, v ∈ slots ↔ v ∈ program.toList := fun _ => hslots.mem_iff
  simp only [of, ofTally, hslots.length_eq, htally.length_eq, hranking, min?_eq_of_mem_iff hmem,
    max?_eq_of_mem_iff hmem, hslots.countP_eq]

/-- **Value statistics are exact and canonical.** The groups share the slots out. The distinct
values, the least and the greatest are those of the summary. There is one ranking of the slots,
the entries of the distinct values with their numbers of occurrences by decreasing count and
then by ascending value, and the most frequent values are its first entries; if they are all of
them, their counts add up to the number of slots. Neither another order of the slots nor another
order of a tally's entries changes anything. -/
theorem exact_and_canonical (program : Program) (top : Nat) (opcodes : OpcodeMap)
    (markers : Markers) :
    let stats := of program top opcodes markers
    let summary := ProgramStats.of program
    (stats.smallInts + stats.likelyOpcodes + stats.other = stats.length ∧
      stats.length = program.size) ∧
    (stats.unique = summary.unique ∧ stats.min = summary.min ∧ stats.max = summary.max) ∧
    (∃ ranking, (∀ entries, Tally.Ranks entries program.toList ↔ entries = ranking) ∧
      ranking.length = stats.unique ∧
      stats.top = (ranking.take (Nat.min top stats.unique)).map (labelled opcodes markers)) ∧
    (stats.unique ≤ top → (stats.top.map (·.count)).sum = stats.length) ∧
    (∀ reordered : Program, reordered.toList.Perm program.toList →
      of reordered top opcodes markers = stats) ∧
    (∀ tally : Tally Int32, tally.counts.Perm (Tally.ofList program.toList).counts →
      ofTally tally program.toList top opcodes markers = stats) := by
  intro stats summary
  have hranks := Tally.ranks_ofList program.toList
  have hlength : (Tally.ofList program.toList).ranking.length = stats.unique :=
    List.length_mergeSort _
  refine ⟨⟨sum_slotGroups _, Array.length_toList⟩, ⟨?_, ?_, ?_⟩,
    ⟨_, fun entries => ?_, hlength, ?_⟩, fun htop => ?_, fun reordered h => ?_,
    fun tally h => ofTally_eq (.refl _) h⟩
  · exact (length_distinctSlots _).symm
  · exact (head?_distinctSlots _).symm
  · exact (getLast?_distinctSlots _).symm
  · exact ⟨fun h => h.unique hranks, fun h => h ▸ hranks⟩
  · rw [← hlength]
    exact congrArg _ List.take_eq_take_min
  · have hcounts : stats.top.map (·.count) =
        ((Tally.ofList program.toList).ranking.take top).map (·.2) := List.map_map
    rw [hcounts, List.take_of_length_le (hlength.trans_le htop)]
    exact hranks.sum
  · exact ofTally_eq h (.refl _)

/-- The slots in another order, and their tally by decreasing value. -/
theorem exact_and_canonical_reordered :
    let program : Program := #[1, 3, 22, 22, 200, -6]
    let reordered : Program := #[22, -6, 200, 3, 22, 1]
    let descending : Tally Int32 := ⟨[(200, 1), (22, 2), (3, 1), (1, 1), (-6, 1)]⟩
    reordered.toList.Perm program.toList ∧
      descending.counts.Perm (Tally.ofList program.toList).counts ∧
      (of program 20 {} {}).unique ≤ 20 ∧
      of reordered 20 {} {} = of program 20 {} {} ∧
      ofTally descending program.toList 20 {} {} = of program 20 {} {} ∧
      ((of program 20 {} {}).top.map (·.count)).sum = 6 := by
  intro program reordered descending
  have hprogram : reordered.toList.Perm program.toList := by decide
  have htally : descending.counts.Perm (Tally.ofList program.toList).counts := by decide
  have hunique : (of program 20 {} {}).unique ≤ 20 := by decide
  obtain ⟨-, -, -, hsum, hreordered, hlisted⟩ := exact_and_canonical program 20 {} {}
  exact ⟨hprogram, htally, hunique, hreordered reordered hprogram, hlisted descending htally,
    hsum hunique⟩

end ValueStats

end TaggedBytecode
