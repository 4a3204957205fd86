/-
Reading bytes that no machine wrote.  Lengths, page numbers and the size of memory are used as
they stand in the file, and registers are taken as they stand there.
-/
import TabLinux.SnapshotRoundTrip

namespace TabLinux

open Bytes Readers Readers.Reads

variable {limit pos : Nat} {buf : Bytes}

/-- The value can be written to `mstatus`, the value to `satp`. -/
def MStatus.Writable (mstatus : MStatus) : Prop :=
  ∃ val, ((Supervisor.new 0 0).csrWrite 0x300 val).mstatus = mstatus

def Satp.Writable (satp : Satp) : Prop :=
  ∃ val, ((Supervisor.new 0 0).csrWrite 0x180 val).satp = satp

section

variable {σ : Type}

end

end TabLinux
