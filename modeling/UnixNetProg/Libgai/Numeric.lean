import UnixNetProg.Libfree.InetNtop6
import UnixNetProg.Libgai.NameInfo

/-!
# `libgai` over the `inet_pton` and `inet_ntop` of `libfree`

The two functions are what `getnameinfo` and `getaddrinfo` need of them, so that the round trip between the two needs
nothing of the host.
-/

namespace UnixNetProg.Libgai

open Lib

/-- The library is linked with `libfree/inet_pton.c` and `libfree/inet_ntop.c`. -/
structure OverLibfree (env : Env) (nenv : NameEnv) : Prop where
  pton : ∀ family s, env.inetPton family s = (Libfree.inetPton family s).join
  ntop : ∀ family addr size, nenv.inetNtop family addr size = (Libfree.inetNtop family addr size).map stringOf

theorem length_last_value_le (l : Libfree.Last) : l.value.length ≤ 4 := by
  cases l with
  | empty => exact Nat.zero_le 4
  | group g =>
    rw [Libfree.Last.value, Libfree.Group.value, length_bytes16]
    decide
  | quad os four => exact le_of_eq ((List.length_map _).trans four)

theorem left_ne_nil {t : Libfree.Text6} (h : t.gap = none) : t.left ≠ [] := by
  intro hleft
  have hfull := t.full h
  have hlast := length_last_value_le t.last
  rw [Libfree.Fields.front, Libfree.Fields.back, hleft, h] at hfull
  have hlen : t.last.value.length = 16 := by simpa using hfull
  omega

theorem colon_mem_text (t : Libfree.Text6) : 58 ∈ t.text := by
  cases hgap : t.gap with
  | some right =>
    rw [t.text_gap hgap]
    simp
  | none =>
    obtain ⟨g, left, hleft⟩ := List.exists_cons_of_ne_nil (left_ne_nil hgap)
    rw [t.text_full hgap, hleft, List.map_cons, List.cons_append, Libfree.intercalate_cons]
    refine List.mem_append_right _ (List.mem_flatMap.mpr ?_)
    exact ⟨t.last.text, by simp, List.mem_cons_self⟩

theorem firstByte_append {s : CString} (hs : s ≠ []) (u : CString) : firstByte (s ++ u) = firstByte s := by
  obtain ⟨c, s, rfl⟩ := List.exists_cons_of_ne_nil hs
  rfl

theorem firstByte_text (t : Libfree.Text6) : isxdigit (firstByte t.text) = true ∨ firstByte t.text = 58 := by
  rw [Libfree.Text6.text]
  split_ifs with hgap
  · exact .inr rfl
  · have hleft : t.left ≠ [] := by
      intro hleft
      exact hgap ⟨hleft, Option.isSome_iff_ne_none.mpr fun hnone => left_ne_nil hnone hleft⟩
    obtain ⟨g, left, hleft⟩ := List.exists_cons_of_ne_nil hleft
    rw [List.nil_append, Libfree.Fields.list, hleft, List.map_cons, List.cons_append, Libfree.intercalate_cons,
      firstByte_append g.ne_nil]
    obtain ⟨c, ds, hdigits⟩ := List.exists_cons_of_ne_nil g.ne_nil
    rw [hdigits]
    exact .inl (g.all_xdigits c (hdigits ▸ List.mem_cons_self))

theorem inetPton6_eq_none {s : CString} (h : 58 ∉ s) : Libfree.inetPton6 s = none := by
  rw [Option.eq_none_iff_forall_ne_some]
  intro addr haddr
  obtain ⟨t, rfl, -⟩ := Libfree.exists_text_of_inetPton6 haddr
  exact h (colon_mem_text t)

theorem inetPton4_eq_none {s : CString} (h : 58 ∈ s) : Libfree.inetPton4 s = none := by
  rw [Option.eq_none_iff_forall_ne_some]
  intro addr haddr
  rcases (Libfree.isdigit_or_dot_of_inetPton4 haddr).2 58 h with hdigit | hdot
  · exact absurd hdigit (by decide)
  · exact absurd hdot (by decide)

variable {env : Env} {nenv : NameEnv} {family : ℤ} {addr : List Byte}

theorem OverLibfree.exists_presentation (h : OverLibfree env nenv) (ha : InetAddr family addr) :
    ∃ s, Presentation env nenv family addr s := by
  have hntop : ∀ {s : CString} {family : ℤ} {addr : List Byte}, Libfree.Shown family addr s → ∀ size, 46 ≤ size →
      nenv.inetNtop family addr size = some s := by
    intro s family addr hs size hsize
    rw [h.ntop, hs.ntop size (lt_of_le_of_lt hs.length hsize), Option.map_some, stringOf_append_zero,
      stringOf_of_not_mem hs.zero]
  have hpton : ∀ {s : CString} {family : ℤ} {addr : List Byte}, Libfree.Shown family addr s →
      env.inetPton family s = some addr := by
    intro s family addr hs
    rw [h.pton, hs.pton]
    rfl
  rcases ha with ⟨rfl, hlen⟩ | ⟨rfl, hlen⟩
  · obtain ⟨a, b, c, d, rfl⟩ := List.length_eq_four.mp hlen
    have hs := Libfree.shown_inet a b c d
    refine ⟨dottedQuad a b c d, hntop hs, hpton hs, fun _ => ⟨?_, ?_⟩, fun h => absurd h (by decide)⟩
    · rw [dottedQuad]
      simp only [List.append_assoc]
      rw [firstByte_append (decimal_ne_nil _)]
      exact isdigit_firstByte_decimal _
    · rw [h.pton, Libfree.inetPton_inet6, inetPton6_eq_none]
      · rfl
      · intro hmem
        have hnone := inetPton4_eq_none hmem
        rw [Libfree.inetPton4_dottedQuad] at hnone
        cases hnone
  · obtain ⟨t, ht⟩ := Libfree.exists_shows hlen
    refine ⟨t.text, hntop ht.shown, hpton ht.shown, fun h => absurd h (by decide), fun _ => ⟨?_, ?_, ?_⟩⟩
    · exact firstByte_text t
    · exact colon_mem_text t
    · rw [h.pton, Libfree.inetPton, if_pos rfl, inetPton4_eq_none (colon_mem_text t)]
      rfl

/-- **The round trip of `libgai` over `libfree`.** Every Internet socket address that `getnameinfo` writes in numbers
is found again by `getaddrinfo`, without a query, in one node; only an allocation can fail. -/
theorem OverLibfree.getaddrinfo_of_getnameinfo (h : OverLibfree env nenv) (ha : InetAddr family addr)
    (port : BitVec 16) (hints : Hints) (hflags : hints.aiFlags = 0)
    (hadm : hints.aiFamily = family ∨ hints.aiFamily = AF_UNSPEC)
    (htype : hints.aiSocktype = SOCK_STREAM ∨ hints.aiSocktype = SOCK_DGRAM) (st : St) :
    ∃ host serv,
      getnameinfo nenv ⟨family, port, addr⟩ NI_MAXHOST NI_MAXSERV (NI_NUMERICHOST ||| NI_NUMERICSERV) =
        some (some host, some serv) ∧
      (getaddrinfo env (some host) (some serv) (some hints)).wp
        (fun head st' => ∃ n, NodeList st'.heap (some head) [n] ∧ Answer hints family addr port n ∧
          st'.nquery = st.nquery)
        (fun e _ => e = .memory ∧ ∃ k, env.allocFails k = true) (fun _ => False) st := by
  obtain ⟨s, hs⟩ := h.exists_presentation ha
  exact ⟨s, _, getnameinfo_numeric hs ha port,
    wp_getaddrinfo_literal port hflags htype (hs.literal ha) (ha.imp And.left And.left) hadm st⟩

/-- A host with no names, over `libfree`. -/
def numericEnv : Env := { sampleEnv with inetPton := fun family s => (Libfree.inetPton family s).join }

def numericNames : NameEnv where
  inetNtop family addr size := (Libfree.inetNtop family addr size).map stringOf
  gethostbyaddr _ _ := none
  getservbyport _ _ := none

theorem OverLibfree.getaddrinfo_of_getnameinfo_sample :
    ∃ host serv,
      getnameinfo numericNames ⟨AF_INET6, htons 80, sampleAddr6⟩ NI_MAXHOST NI_MAXSERV
        (NI_NUMERICHOST ||| NI_NUMERICSERV) = some (some host, some serv) ∧
      (getaddrinfo numericEnv (some host) (some serv) (some ⟨0, AF_UNSPEC, SOCK_STREAM, 0⟩)).wp
        (fun head st' => ∃ n, NodeList st'.heap (some head) [n] ∧
          Answer ⟨0, AF_UNSPEC, SOCK_STREAM, 0⟩ AF_INET6 sampleAddr6 (htons 80) n ∧ st'.nquery = St.start.nquery)
        (fun e _ => e = .memory ∧ ∃ k, numericEnv.allocFails k = true) (fun _ => False) .start :=
  have h : OverLibfree numericEnv numericNames := ⟨fun _ _ => rfl, fun _ _ _ => rfl⟩
  h.getaddrinfo_of_getnameinfo (.inr ⟨rfl, rfl⟩) (htons 80) ⟨0, AF_UNSPEC, SOCK_STREAM, 0⟩ rfl (.inr rfl) (.inl rfl)
    .start

end UnixNetProg.Libgai
