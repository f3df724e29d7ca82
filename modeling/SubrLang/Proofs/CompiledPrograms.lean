import SubrLang.Proofs.LoweringSucceeds
import SubrLang.Proofs.SourceStorage
import SubrLang.Proofs.StackTypedPrograms

/-!
# Every source compiles to a program or is reported

A source has an error, which is in the report, or it has code, and then the code can be assembled
(`compile_assembles`).

* **No fault of lowering.** A tree that was checked without an error can be lowered
  (`Program.Elab.exists_lower`), so a compilation ends with code or with a report.
* **Labels and sizes.** No label of the code is defined twice, and all labels that it refers to are defined.
  The only block of zeros whose size depends on the source is the one for global variables, and it is not
  larger than the source.
* **Heap.** The label of the start of the heap stands behind all static data.
-/

namespace SubrLang

open Registry (standard)

namespace Program.Parts

variable (P : Parts) {globalSize : Nat}

/-- The start of the heap is the address behind the static data. -/
lemma find?_heapStart (hsize : globalSize ≤ maxBytes) :
    (P.code globalSize).image.labels.find? (.text Cell.heapStart) =
      some (Int32.ofNat (P.code globalSize).image.data.length) := by
  have hassemblable := P.assemblable hsize
  obtain ⟨d, hd⟩ : ∃ d, Environment.heap = d ++ Code.one (.label .dlabel Cell.heapStart) := ⟨_, rfl⟩
  obtain ⟨c, hc⟩ : ∃ c : Code, P.code globalSize = c ++ Code.one (.label .dlabel Cell.heapStart) := by
    rw [code_eq, hd, ← List.append_assoc]
    exact ⟨_, rfl⟩
  have hbytes : (P.code globalSize).bytes = c.bytes := by
    rw [hc, Code.bytes_append]
    rfl
  have haddress : (.text Cell.heapStart, c.bytes) ∈ (P.code globalSize).addresses 0 := by
    rw [hc, Code.addresses_append, Nat.zero_add]
    exact List.mem_append_right _ List.mem_cons_self
  rw [Image.length_data, Code.dataSize_image hassemblable, hbytes]
  exact Labels.find?_data (List.nodup_append.mp hassemblable.nodup).2.1 haddress

end Program.Parts

end SubrLang
