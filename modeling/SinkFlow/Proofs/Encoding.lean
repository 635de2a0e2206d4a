import SinkFlow.Proofs.Json
import SinkFlow.Report.Document

/-!
Reading undoes writing for all documents: dependence graphs with their statements, instructions, literals and
initializers, and reports with their traces and constants.
-/

namespace SinkFlow

open Json

/-! ## Literals -/

@[simp] theorem Constant.ofJson_toJson (c : Constant) : ofJson c.toJson = some c := by
  cases c <;> simp [toJson, ofJson, asVariant]

@[simp] theorem Literal.ofJson_toJson (l : Literal) : ofJson l.toJson = some l := by
  cases l <;> simp [toJson, ofJson, asVariant]

/-! ## Instructions -/

namespace FieldSignature

@[simp] theorem ofJson_toJson (f : FieldSignature) : ofJson f.toJson = some f := by
  simp [ofJson, toJson, record_obj, Record.needed, List.lookup_cons]

@[simp] theorem isReadable_toJson (f : FieldSignature) : f.toJson.isReadable = true := by
  simp [toJson]

end FieldSignature

namespace Invoke

/-- A call shares its object with the tag of the instruction, so only its members are written. -/
@[simp] theorem ofJson_members (c : Invoke) : ofJson (obj c.members) = some c := by
  simp [ofJson, members, record_obj, Record.needed, Record.optional, Record.defaulted, List.lookup_cons, asList_map]

@[simp] theorem membersReadable_members (c : Invoke) : membersReadable c.members = true := by
  simp [members, allReadable_map]

end Invoke

namespace Instruction

@[simp] theorem ofJson_toJson (i : Instruction) (inStatement : Bool) : ofJson inStatement i.toJson = some i := by
  cases i with
  | invoke call =>
      have hkey : "op" ∉ call.members.map Prod.fst := by simp [Invoke.members]
      simp [ofJson, toJson, tagged_obj, tags, hkey, ofTagged]
  | _ =>
      simp [ofJson, toJson, tagged_obj, tags, ofTagged, record_obj, Record.needed, Record.optional, List.lookup_cons,
        isBare]

@[simp] theorem isReadable_toJson (i : Instruction) : i.toJson.isReadable = true := by
  cases i <;> simp [toJson]

end Instruction

/-! ## Statements -/

namespace HeapLocation

@[simp] theorem ofJson_toJson (l : HeapLocation) : ofJson l.toJson = some l := by
  cases l <;> simp [ofJson, toJson, tagged_obj, record_obj, Record.needed, isBare]

@[simp] theorem isReadable_toJson (l : HeapLocation) : l.toJson.isReadable = true := by
  cases l <;> simp [toJson]

end HeapLocation

@[simp] theorem StatementKind.ofJson_toJson (kind : StatementKind) : ofJson kind.toJson = some kind := by
  cases kind <;> simp [ofJson, toJson, tagged_obj, tags, allReadable_map, ofTagged, location, record_obj, Record.needed,
    List.lookup_cons, asList_map]

@[simp] theorem Statement.ofJson_toJson (s : Statement) : ofJson s.toJson = some s := by
  simp [ofJson, toJson, record_obj, Record.needed, List.lookup_cons]

/-! ## Graphs -/

@[simp] theorem InitializerBlock.ofJson_toJson (b : InitializerBlock) : ofJson b.toJson = some b := by
  simp [ofJson, toJson, record_obj, Record.needed, List.lookup_cons, asList_map]

@[simp] theorem InitializerBody.ofJson_toJson (b : InitializerBody) : ofJson b.toJson = some b := by
  simp [ofJson, toJson, record_obj, Record.needed, List.lookup_cons, asList_map]

@[simp] theorem LiteralEntry.ofJson_toJson (e : LiteralEntry) : ofJson e.toJson = some e := by
  simp [ofJson, toJson, record_obj, Record.needed, List.lookup_cons]

theorem GraphDocument.ofJson_toJson (d : GraphDocument) : ofJson d.toJson = some d := by
  simp [ofJson, toJson, record_obj, Record.optional, Record.defaulted, List.lookup_cons, asList_map, asPair_arr]

/-! ## Reports -/

@[simp] theorem StatementRef.ofJson_toJson (r : StatementRef) : ofJson r.toJson = some r := by
  simp [ofJson, toJson, record_obj, Record.needed, List.lookup_cons]

@[simp] theorem Trace.orNull_toJson (t : Trace) : orNull (asList StatementRef.ofJson) t.toJson = some t := by
  cases t with
  | none => rfl
  | some p =>
      have hpath := asList_map StatementRef.ofJson_toJson p
      simp [Trace.toJson, orNull, hpath]

@[simp] theorem TextEntry.ofJson_toJson (e : TextEntry) : ofJson e.toJson = some e := by
  simp [ofJson, toJson, record_obj, Record.needed, Record.optional, List.lookup_cons]

theorem SinkReport.ofJson_toJson (r : SinkReport) : ofJson r.toJson = some r := by
  simp [ofJson, toJson, record_obj, Record.needed, List.lookup_cons, asList_map]

/-- Every document of a dependence graph and every report is read back from what is written for it. -/
theorem documents_read_back :
    (∀ d : GraphDocument, GraphDocument.ofJson d.toJson = some d) ∧
      ∀ r : SinkReport, SinkReport.ofJson r.toJson = some r :=
  ⟨GraphDocument.ofJson_toJson, SinkReport.ofJson_toJson⟩

end SinkFlow
