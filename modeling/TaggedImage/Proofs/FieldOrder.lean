import TaggedImage.Proofs.Appending

/-!
# The order of the fields

Before anything is written the fields of a directory are checked and counted, which no order of them
matters for, and then they are sorted. Fields with distinct tags have one sorted order
(`Appender.mergeSort_perm_eq`), so every order of them makes the same table
(`Appender.table_perm`): the same bytes in the same places, or the same fault after the same writes.
-/

namespace TaggedImage

namespace Appender

variable {fields fields' : List Field}

/-- Lists of the same fields with distinct tags are sorted alike. -/
theorem mergeSort_perm_eq (hp : fields.Perm fields') (hnd : (fields.map (·.tag)).Nodup) :
    (fields.mergeSort fun a b => decide (a.tag ≤ b.tag)) =
      fields'.mergeSort fun a b => decide (a.tag ≤ b.tag) := by
  have hnd' : (fields'.map (·.tag)).Nodup := (hp.map Field.tag).nodup_iff.1 hnd
  exact mergeSort_eq_of_ascending ((List.mergeSort_perm _ _).trans hp.symm)
    (ascending_mergeSort hnd')

/-- Fields with distinct tags are refused only if there are none. -/
theorem checkFields_perm (hp : fields.Perm fields') (hnd : (fields.map (·.tag)).Nodup) :
    checkFields fields = checkFields fields' := by
  have hnd' : (fields'.map (·.tag)).Nodup := (hp.map Field.tag).nodup_iff.1 hnd
  by_cases he : fields = []
  · subst he
    rw [hp.nil_eq]
  · have he' : fields' ≠ [] := fun h => he (h ▸ hp).eq_nil
    rw [(checkFields_eq_ok (u := ())).2 ⟨he, hnd⟩, checkFields_eq_ok.2 ⟨he', hnd'⟩]

variable {σ : Type} [Stream σ]

/-- The table of fields with different tags does not depend on their order. -/
theorem table_perm (hp : fields.Perm fields') (hnd : (fields.map (·.tag)).Nodup) :
    (table fields : FileM (Appender σ) Nat) = table fields' := by
  simp only [table, checkFields_perm hp hnd, mergeSort_perm_eq hp hnd, hp.length_eq]

/-- The order of fields with distinct tags does not matter. In every state of an appender, whatever
its stream is and does, two orders of them give the same answer or fault, and leave the same state.
-/
theorem directory_perm (hp : fields.Perm fields') (hnd : (fields.map (·.tag)).Nodup)
    (a : Appender σ) :
    directory fields a = directory fields' a ∧ subDirectory fields a = subDirectory fields' a := by
  have htable : (table fields : FileM (Appender σ) Nat) = table fields' := table_perm hp hnd
  constructor
  · rw [directory, directory, htable, hp.length_eq]
  · rw [subDirectory, subDirectory, htable]

/-- A resolution, which its entry cannot hold, and a width, in descending order of their tags. -/
def resolutionFirst : List Field := [⟨282, .rational [(300, 1)]⟩, ⟨256, .short [100]⟩]

/-- In either order they are written to a file of 46 bytes. Below a cap of 40 bytes either order
fails at the table, when the resolution is written already. -/
theorem directory_perm_resolutionFirst :
    resolutionFirst.Perm resolutionFirst.reverse ∧ (resolutionFirst.map (·.tag)).Nodup ∧
      (∃ a, ofStream ((Memory.withCapacity 0).withCap 46) .big .narrow = .ok a ∧
        directory resolutionFirst a = directory resolutionFirst.reverse a ∧
        FileM.Yields (directory resolutionFirst) a fun offset a' =>
          offset = 16 ∧ a'.stream.size = 46) ∧
      ∃ a, ofStream ((Memory.withCapacity 0).withCap 40) .big .narrow = .ok a ∧
        directory resolutionFirst a = directory resolutionFirst.reverse a ∧
        FileM.Yields (directory resolutionFirst).attempt a fun answer a' =>
          answer = .error (.stream (.capacityExceeded 46 40)) ∧ a'.stream.size = 16 := by
  have hp : resolutionFirst.Perm resolutionFirst.reverse := (List.reverse_perm _).symm
  have hnd : (resolutionFirst.map (·.tag)).Nodup := by decide
  have hrun : (∃ a, ofStream ((Memory.withCapacity 0).withCap 46) .big .narrow = .ok a ∧
        FileM.Yields (directory resolutionFirst) a fun offset a' =>
          offset = 16 ∧ a'.stream.size = 46) ∧
      ∃ a, ofStream ((Memory.withCapacity 0).withCap 40) .big .narrow = .ok a ∧
        FileM.Yields (directory resolutionFirst).attempt a fun answer a' =>
          answer = .error (.stream (.capacityExceeded 46 40)) ∧ a'.stream.size = 16 := by
    -- sorting does not reduce in the kernel, all else does
    have hsort : (resolutionFirst.mergeSort fun a b => decide (a.tag ≤ b.tag)) =
        resolutionFirst.reverse :=
      mergeSort_eq_of_ascending hp.symm (by decide)
    simp only [directory, table, hsort]
    decide +kernel
  obtain ⟨⟨a, ha, hy⟩, b, hb, hyb⟩ := hrun
  exact ⟨hp, hnd, ⟨a, ha, (directory_perm hp hnd a).1, hy⟩, b, hb, (directory_perm hp hnd b).1, hyb⟩

end Appender

end TaggedImage
