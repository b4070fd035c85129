import Libtask.Netio

/-!
# Functions that transfer nothing

The functions of `net.c` neither read from a descriptor nor write to one.
-/

namespace Libtask.Netio

/-- The call reads or writes. -/
def transfers : Call → Bool
  | .os (.read _ _) | .os (.write _ _) => true
  | _ => false

variable {L : Type}

/-- The code reads and writes nothing, up to labels of `goes`, and starts tasks at labels of
`starts`. -/
def Quiet (goes starts : L → Prop) : Prog L → Prop
  | .goto l => goes l
  | .call c next => transfers c = false ∧ ∀ a, Quiet goes starts (next a)
  | .spawn child next => starts child ∧ Quiet goes starts next
  | .ret => True
  | .stop _ => True

section
variable {goes starts : L → Prop}

theorem quiet_call {c : Call} {next : Answer → Prog L} (silent : transfers c = false)
    (goesOn : ∀ a, Quiet goes starts (next a)) : Quiet goes starts (.call c next) :=
  ⟨silent, goesOn⟩

theorem quiet_fdnoblock {fd : Int} {next : Prog L} (goesOn : Quiet goes starts next) :
    Quiet goes starts (fdnoblock fd next) :=
  quiet_call rfl fun _ => quiet_call rfl fun _ => goesOn

theorem quiet_netlookup {name : List UInt8} {next : Option (List UInt8) → Prog L}
    (goesOn : ∀ ip, Quiet goes starts (next ip)) : Quiet goes starts (netlookup name next) := by
  refine quiet_call rfl fun addr => ?_
  split
  · exact goesOn _
  · exact quiet_call rfl fun he => goesOn _

section
variable {next : Int → Prog L} (goesOn : ∀ fd, Quiet goes starts (next fd))

include goesOn

theorem quiet_bindAt {istcp : Bool} {fd : Int} {ip : List UInt8} {port : Int} :
    Quiet goes starts (bindAt istcp fd ip port next) := by
  refine quiet_call rfl fun b => ?_
  split
  · exact quiet_call rfl fun _ => goesOn _
  · split
    · exact quiet_call rfl fun _ => quiet_fdnoblock (goesOn _)
    · exact quiet_fdnoblock (goesOn _)

theorem quiet_announceAt {istcp : Bool} {ip : List UInt8} {port : Int} :
    Quiet goes starts (announceAt istcp ip port next) := by
  refine quiet_call rfl fun fd => ?_
  split
  · exact goesOn _
  · split
    · refine quiet_call rfl fun n => ?_
      split
      · exact quiet_call rfl fun _ => quiet_bindAt goesOn
      · exact quiet_bindAt goesOn
    · exact quiet_bindAt goesOn

theorem quiet_netannounce {istcp : Bool} {server : Option (List UInt8)} {port : Int} :
    Quiet goes starts (netannounce istcp server port next) := by
  unfold netannounce
  split
  · exact quiet_announceAt goesOn
  · split
    · exact quiet_announceAt goesOn
    · refine quiet_netlookup fun ip => ?_
      cases ip with
      | none => exact goesOn _
      | some ip => exact quiet_announceAt goesOn

theorem quiet_dialAt {fd : Int} {ip : List UInt8} {port : Int} :
    Quiet goes starts (dialAt fd ip port next) := by
  refine quiet_call rfl fun c => ?_
  split
  · exact quiet_call rfl fun _ => goesOn _
  · refine quiet_call rfl fun _ => quiet_call rfl fun p => ?_
    split
    · exact goesOn _
    · exact quiet_call rfl fun _ => quiet_call rfl fun _ => goesOn _

theorem quiet_netdial {istcp : Bool} {server : List UInt8} {port : Int} :
    Quiet goes starts (netdial istcp server port next) := by
  refine quiet_netlookup fun ip => ?_
  cases ip with
  | none => exact goesOn _
  | some ip =>
      refine quiet_call rfl fun fd => ?_
      split
      · exact goesOn _
      · refine quiet_fdnoblock ?_
        split
        · exact quiet_dialAt goesOn
        · exact quiet_call rfl fun _ => quiet_dialAt goesOn

end

theorem quiet_netaccept {fd : Int} {next : Int → List UInt8 → Prog L}
    (goesOn : ∀ cfd client, Quiet goes starts (next cfd client)) :
    Quiet goes starts (netaccept fd next) := by
  refine quiet_call rfl fun _ => quiet_call rfl fun cfd => ?_
  split
  · exact goesOn _ _
  · exact quiet_fdnoblock (quiet_call rfl fun _ => goesOn _ _)

end

end Libtask.Netio
