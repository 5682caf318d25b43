import UnixNetProg.Key.PrintSadbMsg

/-!
# What `print_sadb_msg` looks at

The lengths in a message are taken as they are: the walk goes on by the length of each extension, and the
printers look at what the type, the number of bits or the family says. `Reached` are the extensions that the
walk comes to, `Looks` are the bytes that are looked at for one of them. With `whole` these are all of them,
otherwise those of the walk itself and of the loops in `supported_print` and `key_print`.
-/

namespace UnixNetProg.Key

open Lib

def AF_UNIX : ℤ := AF_LOCAL

/-! ### The printers -/

/-- The extensions that the walk comes to. -/
inductive Reached (e : Endian) (m : Memory Byte) (msglen : ℕ) : ℕ → Prop
  | first : sizeofMsg < msglen → Reached e m msglen sizeofMsg
  | next {ext : ℕ} : Reached e m msglen ext → ext + m.load16 e ext * 8 < msglen →
    Reached e m msglen (ext + m.load16 e ext * 8)

/-- What the printer of the extension at `ext` needs of the message. -/
def Fits (whole : Bool) (e : Endian) (m : Memory Byte) (msglen ext : ℕ) : Prop :=
  match printerOf e m ext with
  | .key _ => ext + 8 + (m.load16 e (ext + 4) + 7) / 8 ≤ msglen
  | .supported => m.load16 e ext ≤ 1 ∨ ext + m.load16 e ext * 8 ≤ msglen
  | .sa => whole → ext + 16 ≤ msglen
  | .lifetime => whole → ext + 32 ≤ msglen
  | .address => whole → ext + 16 ≤ msglen ∧ ((m.load16 e (ext + 8) : ℤ) = AF_INET6 → ext + 32 ≤ msglen) ∧
      ((m.load16 e (ext + 8) : ℤ) = AF_UNIX → ∃ j, ext + 10 ≤ j ∧ j < msglen ∧ m j = 0)
  | _ => True

section Walk

variable {e : Endian} {m : Memory Byte} {msglen : ℕ}

/-- Extensions start at multiples of 8 inside the message. -/
theorem Reached.spec {ext : ℕ} (h : Reached e m msglen ext) : 16 ≤ ext ∧ ext % 8 = 0 ∧ ext < msglen := by
  induction h with
  | first hlt => exact ⟨Nat.le_refl _, rfl, hlt⟩
  | next _ hlt ih => exact ⟨by omega, by omega, hlt⟩

theorem walkExtensions_succ {ext fuel : ℕ} {left : ℤ} (hleft : 0 < left) {r : List Visit × ℤ}
    (h : walkExtensions e m (fuel + 1) ext left = some r) :
    ∃ visits, walkExtensions e m fuel (ext + m.load16 e ext * 8) (left - (m.load16 e ext * 8 : ℕ)) =
        some (visits, r.2) ∧ r.1 = ⟨ext, m.load16 e (ext + 2), printerOf e m ext⟩ :: visits := by
  rw [walkExtensions, if_pos hleft] at h
  dsimp only at h
  cases hrest : walkExtensions e m fuel (ext + m.load16 e ext * 8) (left - (m.load16 e ext * 8 : ℕ)) with
  | none =>
    rw [hrest] at h
    cases h
  | some rest =>
    obtain ⟨visits, left'⟩ := rest
    rw [hrest] at h
    obtain rfl := Option.some.inj h
    exact ⟨visits, rfl, rfl⟩

theorem walk_turn {ext fuel : ℕ} (hlt : ext < msglen) {r : List Visit × ℤ}
    (h : walkExtensions e m (fuel + 1) ext (msglen - ext) = some r) :
    ∃ visits, walkExtensions e m fuel (ext + m.load16 e ext * 8) (msglen - (ext + m.load16 e ext * 8 : ℕ)) =
        some (visits, r.2) ∧ r.1 = ⟨ext, m.load16 e (ext + 2), printerOf e m ext⟩ :: visits := by
  have hleft : (msglen : ℤ) - ext - (m.load16 e ext * 8 : ℕ) = msglen - (ext + m.load16 e ext * 8 : ℕ) := by omega
  have hturn := walkExtensions_succ (by omega) h
  rw [hleft] at hturn
  exact hturn

theorem Reached.ends {ext : ℕ} (h : Reached e m msglen ext) {fuel : ℕ} {r : List Visit × ℤ}
    (hwalk : walkExtensions e m fuel sizeofMsg (msglen - sizeofMsg) = some r) :
    ∃ fuel r, walkExtensions e m fuel ext (msglen - ext) = some r := by
  induction h with
  | first _ => exact ⟨fuel, r, hwalk⟩
  | @next ext hext hlt ih =>
    obtain ⟨fuel, r, hr⟩ := ih
    cases fuel with
    | zero => cases hr
    | succ fuel =>
      obtain ⟨visits, hvisits, -⟩ := walk_turn hext.spec.2.2 hr
      exact ⟨fuel, (visits, r.2), hvisits⟩

theorem reached_of_mem_visits {fuel ext : ℕ} (h : ext < msglen → Reached e m msglen ext) {r : List Visit × ℤ}
    (hwalk : walkExtensions e m fuel ext (msglen - ext) = some r) : ∀ v ∈ r.1, Reached e m msglen v.ext := by
  induction fuel generalizing ext r with
  | zero => cases hwalk
  | succ fuel ih =>
    by_cases hlt : ext < msglen
    · obtain ⟨visits, hvisits, hr⟩ := walk_turn hlt hwalk
      rw [hr]
      intro v hv
      rcases List.mem_cons.mp hv with rfl | hv
      · exact h hlt
      · exact ih (fun hnext => (h hlt).next hnext) hvisits v hv
    · rw [walkExtensions_end (by omega)] at hwalk
      obtain rfl := Option.some.inj hwalk
      exact fun v hv => absurd hv List.not_mem_nil

theorem visits_closed {fuel ext : ℕ} {r : List Visit × ℤ}
    (hwalk : walkExtensions e m fuel ext (msglen - ext) = some r) :
    (ext < msglen → ext ∈ r.1.map Visit.ext) ∧
      ∀ p ∈ r.1.map Visit.ext, p + m.load16 e p * 8 < msglen → p + m.load16 e p * 8 ∈ r.1.map Visit.ext := by
  induction fuel generalizing ext r with
  | zero => cases hwalk
  | succ fuel ih =>
    by_cases hlt : ext < msglen
    · obtain ⟨visits, hvisits, hr⟩ := walk_turn hlt hwalk
      obtain ⟨hfirst, hnext⟩ := ih hvisits
      rw [hr, List.map_cons]
      refine ⟨fun _ => List.mem_cons_self, fun p hp hmore => List.mem_cons_of_mem _ ?_⟩
      rcases List.mem_cons.mp hp with rfl | hp
      · exact hfirst hmore
      · exact hnext p hp hmore
    · rw [walkExtensions_end (by omega)] at hwalk
      obtain rfl := Option.some.inj hwalk
      exact ⟨fun h => absurd h hlt, fun p hp => absurd hp List.not_mem_nil⟩

theorem reached_iff_visited {fuel : ℕ} {r : List Visit × ℤ}
    (hwalk : walkExtensions e m fuel sizeofMsg (msglen - sizeofMsg) = some r) (ext : ℕ) :
    Reached e m msglen ext ↔ ext ∈ r.1.map Visit.ext := by
  constructor
  · intro h
    obtain ⟨hfirst, hnext⟩ := visits_closed hwalk
    induction h with
    | first hlt => exact hfirst hlt
    | next _ hlt ih => exact hnext _ ih hlt
  · intro h
    obtain ⟨v, hv, rfl⟩ := List.mem_map.mp h
    exact reached_of_mem_visits Reached.first hwalk v hv

end Walk

/-! ### The loops of the printers -/

section Fit

variable {whole : Bool} {e : Endian} {m : Memory Byte} {msglen ext : ℕ}

end Fit

section Message

variable {e : Endian} {m : Memory Byte} {msglen : ℕ}

end Message

end UnixNetProg.Key
