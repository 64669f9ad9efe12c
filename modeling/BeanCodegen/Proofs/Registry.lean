import Mathlib
import BeanCodegen.Naming.Registry
import BeanCodegen.Plan.Allocate
/-! # Fresh names

A claim never hands out a taken name. The numbered candidates of a base differ from the base and
from each other, so a registry with `n` names taken cannot hold the base and its first `n`
numbered candidates all at once: the bounded search always ends on a free name.

The search is also the least one: a claim of a taken name gives the name followed by the least
positive number whose numbered form is free, and that number is at most the count of taken
names, so the bound on the search never decides the answer (`claim_least_free`).

A run of claims therefore grows a registry by names that are pairwise distinct and were free
when the run began (`Registry.Grows`); every uniqueness fact about chosen class names is read
off this relation.
-/

namespace BeanCodegen.Naming.Registry

theorem mem_taken_of_contains {r : Registry} {name : String} (h : r.contains name = true) :
    name ∈ r.taken := by
  simpa [contains] using h

theorem not_mem_taken_of_contains {r : Registry} {name : String} (h : r.contains name = false) :
    name ∉ r.taken := by
  simpa [contains] using h

theorem numbered_injective (base : String) :
    Function.Injective fun k : Nat => base ++ toString k := by
  intro i j h
  exact Nat.repr_inj.mp ((String.append_right_inj base).mp h)

theorem numbered_ne_base (base : String) (k : Nat) : base ++ toString k ≠ base := by
  intro h
  have h' : base ++ toString k = base ++ "" := by rw [String.append_empty]; exact h
  exact Nat.repr_ne_empty ((String.append_right_inj base).mp h')

/-- The search for a numbered name stops on a free one, unless all the candidates it tried are
taken. -/
theorem numberedFrom_free_or_taken (r : Registry) (base : String) (fuel n : Nat) :
    r.numberedFrom base fuel n ∉ r.taken ∨
      ∀ k, n ≤ k → k < n + fuel → base ++ toString k ∈ r.taken := by
  induction fuel generalizing n with
  | zero => exact Or.inr fun k h1 h2 => by omega
  | succ fuel ih =>
    simp only [numberedFrom]
    cases hc : r.contains (base ++ toString n) with
    | false => exact Or.inl (not_mem_taken_of_contains hc)
    | true =>
      refine (ih (n + 1)).imp id fun hall k h1 h2 => ?_
      rcases Nat.eq_or_lt_of_le h1 with rfl | hlt
      · exact mem_taken_of_contains hc
      · exact hall k hlt (by omega)

/-- The base and its first `n` numbered candidates are `n + 1` distinct names. -/
theorem nodup_candidates (base : String) (n : Nat) :
    (base :: (List.range' 1 n).map fun k => base ++ toString k).Nodup := by
  refine List.nodup_cons.2 ⟨?_, (List.nodup_range' ..).map (numbered_injective base)⟩
  simp only [List.mem_map, not_exists, not_and]
  exact fun k _ => numbered_ne_base base k

/-- The numbered search from `n` with `fuel` tries stops at the least number `m` whose candidate
is free, or just past its last try when all of them are taken. -/
theorem numberedFrom_least (r : Registry) (base : String) :
    ∀ fuel n : Nat, ∃ m, n ≤ m ∧ m ≤ n + fuel ∧ r.numberedFrom base fuel n = base ++ toString m ∧
      (∀ k, n ≤ k → k < m → base ++ toString k ∈ r.taken) ∧
      (m < n + fuel → base ++ toString m ∉ r.taken)
  | 0, n => ⟨n, le_rfl, by omega, rfl, fun k h1 h2 => by omega, fun h => by omega⟩
  | fuel + 1, n => by
    simp only [numberedFrom]
    cases hc : r.contains (base ++ toString n) with
    | false =>
      exact ⟨n, le_rfl, by omega, by simp, fun k h1 h2 => by omega,
        fun _ => not_mem_taken_of_contains hc⟩
    | true =>
      obtain ⟨m, h1, h2, heq, hbelow, hfree⟩ := numberedFrom_least r base fuel (n + 1)
      refine ⟨m, by omega, by omega, by simpa using heq, fun k hk1 hk2 => ?_,
        fun h => hfree (by omega)⟩
      rcases Nat.eq_or_lt_of_le hk1 with rfl | hlt
      · exact mem_taken_of_contains hc
      · exact hbelow k hlt hk2

/-- A candidate and its numbered forms below `n`, all taken, are `n` distinct taken names. -/
theorem le_card_of_numbered_taken {r : Registry} {c : String} {n : Nat} (hc : c ∈ r.taken)
    (hbelow : ∀ k, 1 ≤ k → k < n → c ++ toString k ∈ r.taken) :
    n ≤ r.taken.toFinset.card := by
  set cands := c :: (List.range' 1 (n - 1)).map fun k => c ++ toString k
  have hsub : cands ⊆ r.taken := by
    intro x hx
    simp only [cands, List.mem_cons, List.mem_map, List.mem_range'_1] at hx
    rcases hx with rfl | ⟨k, ⟨h1, h2⟩, rfl⟩
    · exact hc
    · exact hbelow k h1 (by omega)
  have hcard := Finset.card_le_card (s := cands.toFinset) (t := r.taken.toFinset)
    fun x hx => List.mem_toFinset.2 (hsub (List.mem_toFinset.1 hx))
  rw [List.toFinset_card_of_nodup (nodup_candidates c (n - 1))] at hcard
  simp only [List.length_cons, List.length_map, List.length_range'] at hcard
  omega

theorem fresh_of_not_mem {r : Registry} {c : String} (hc : c ∉ r.taken) : r.fresh c = c := by
  rw [fresh, if_neg (by simpa [contains] using hc)]

/-- A taken candidate is numbered with the least positive number not tried in vain. -/
theorem fresh_of_mem {r : Registry} {c : String} (hc : c ∈ r.taken) :
    ∃ n, r.fresh c = c ++ toString n ∧ 1 ≤ n ∧
      ∀ k, 1 ≤ k → k < n → c ++ toString k ∈ r.taken := by
  obtain ⟨m, h1, -, heq, hbelow, -⟩ := numberedFrom_least r c r.taken.length 1
  refine ⟨m, ?_, h1, hbelow⟩
  rw [fresh, if_pos (by simpa [contains] using hc), heq]

/-- A claim gives a name that is not taken. -/
theorem fresh_not_mem (r : Registry) (base : String) : r.fresh base ∉ r.taken := by
  unfold fresh
  cases hb : r.contains base with
  | false => exact not_mem_taken_of_contains hb
  | true =>
    simp only [if_true]
    refine (numberedFrom_free_or_taken r base r.taken.length 1).resolve_right fun hall => ?_
    have hsub : (base :: (List.range' 1 r.taken.length).map fun k => base ++ toString k) ⊆
        r.taken := by
      intro x hx
      simp only [List.mem_cons, List.mem_map, List.mem_range'_1] at hx
      rcases hx with rfl | ⟨k, ⟨h1, h2⟩, rfl⟩
      · exact mem_taken_of_contains hb
      · exact hall k h1 h2
    have hlen := (nodup_candidates base r.taken.length).length_le_of_subset hsub
    simp at hlen

theorem claim_fst (r : Registry) (base : String) : (r.claim base).1 = r.fresh base := rfl

theorem claim_taken (r : Registry) (base : String) :
    (r.claim base).2.taken = r.fresh base :: r.taken := rfl

/-- `r'` is `r` with the names `ns` claimed on top, the latest first: they are pairwise distinct
and were free in `r`. -/
structure Grows (r r' : Registry) (ns : List String) : Prop where
  taken_eq : r'.taken = ns ++ r.taken
  nodup : ns.Nodup
  fresh : ∀ n ∈ ns, n ∉ r.taken

theorem Grows.refl (r : Registry) : Grows r r [] := ⟨rfl, List.nodup_nil, by simp⟩

theorem Grows.of_taken_eq {r r' : Registry} (h : r'.taken = r.taken) : Grows r r' [] :=
  ⟨h, List.nodup_nil, by simp⟩

theorem grows_claim (r : Registry) (base : String) : Grows r (r.claim base).2 [(r.claim base).1] :=
  ⟨claim_taken r base, List.nodup_singleton _, by simpa [claim_fst] using fresh_not_mem r base⟩

theorem Grows.trans {r r' r'' : Registry} {ns ns' : List String} (h : Grows r r' ns)
    (h' : Grows r' r'' ns') : Grows r r'' (ns' ++ ns) := by
  refine ⟨by rw [h'.taken_eq, h.taken_eq, List.append_assoc], ?_, ?_⟩
  · refine List.nodup_append.2 ⟨h'.nodup, h.nodup, fun a ha b hb hab => ?_⟩
    exact h'.fresh a ha (h.taken_eq ▸ List.mem_append_left _ (hab ▸ hb))
  · intro n hn
    rcases List.mem_append.1 hn with hn | hn
    · exact fun ht => h'.fresh n hn (h.taken_eq ▸ List.mem_append_right _ ht)
    · exact h.fresh n hn

/-- A run of claims grows the registry by the names it returns, the latest first. -/
theorem grows_mapM_claimName (r : Registry) : ∀ cs : List String,
    Grows r ((cs.mapM Plan.claimName).run r).2 ((cs.mapM Plan.claimName).run r).1.reverse
  | [] => Grows.refl r
  | c :: cs => by
    have h := (grows_claim r c).trans (grows_mapM_claimName (r.claim c).2 cs)
    have hrun : ((c :: cs).mapM Plan.claimName).run r =
        ((r.claim c).1 :: ((cs.mapM Plan.claimName).run (r.claim c).2).1,
          ((cs.mapM Plan.claimName).run (r.claim c).2).2) := by
      rw [List.mapM_cons]
      rfl
    rw [hrun, List.reverse_cons]
    exact h

/-- Claiming `c` in a registry whose taken names form the set `S` gives `c` itself when it is
free, and otherwise `c` followed by the least positive number `n` whose numbered form is free,
with `n` at most the size of `S`; the name given is free, and afterwards the taken set is `S`
with that name added. Any run of claims on the registry gives pairwise distinct names, none of
them taken when it began. -/
theorem claim_least_free (r : Registry) (c : String) :
    (c ∉ r.taken → (r.claim c).1 = c) ∧
    (c ∈ r.taken → ∃ n, (r.claim c).1 = c ++ toString n ∧ 1 ≤ n ∧ c ++ toString n ∉ r.taken ∧
      (∀ k, 1 ≤ k → k < n → c ++ toString k ∈ r.taken) ∧ n ≤ r.taken.toFinset.card) ∧
    (r.claim c).1 ∉ r.taken ∧
    (r.claim c).2.taken.toFinset = insert (r.claim c).1 r.taken.toFinset ∧
    ∀ cs : List String, ((cs.mapM Plan.claimName).run r).1.Nodup ∧
      ∀ n ∈ ((cs.mapM Plan.claimName).run r).1, n ∉ r.taken := by
  have hfree : (r.claim c).1 ∉ r.taken := fresh_not_mem r c
  refine ⟨fresh_of_not_mem, fun hc => ?_, hfree, ?_, fun cs => ?_⟩
  · obtain ⟨n, heq, h1, hbelow⟩ := fresh_of_mem hc
    exact ⟨n, heq, h1, heq ▸ hfree, hbelow, le_card_of_numbered_taken hc hbelow⟩
  · rw [claim_taken, List.toFinset_cons, claim_fst]
  · have hg := grows_mapM_claimName r cs
    exact ⟨List.nodup_reverse.1 hg.nodup, fun n hn => hg.fresh n (List.mem_reverse.2 hn)⟩

example : ((["foo", "foo", "foo", "foo1"].mapM Plan.claimName).run Registry.empty).1 =
    ["foo", "foo1", "foo2", "foo11"] := by decide

end BeanCodegen.Naming.Registry
