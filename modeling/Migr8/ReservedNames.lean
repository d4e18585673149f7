import Migr8.Acceptance
import Migr8.Inquiry
import Migr8.DurableHistory

namespace Migr8.ReservedNames

open Errors Model Latch Driver Database World Adapters Metadata Context Engine StateValidate Discipline Teardown
open Inspection Initialization Opening Snapshots Outcomes Acceptance ReadOnly Inquiry DurableHistory Lib.Process
open Lib.Interaction (final final_wp)

variable {α : Type} {adapter : Adapter} {input : Input} {d : Db} {s : Session} {l : Local} {os : Nat → Outcome}

section Damaged

variable (hm : d.marker = []) (hf : Finding d)

include hm hf

end Damaged

section Example

def indexed : Db where
  layout :=
    { history := .altered { problem := "m8_history is not a table: sqlite_master records it as index", noTable := true }
      activeIndex := .vacant
      progress := .vacant
      metaTable := .vacant }

end Example

end Migr8.ReservedNames
