/-
# Ids for drafts

Drafts come with an id or without, with the empty id, with one that another draft has.  Each is
given an id of its own:

    kept      a draft that is the first to have an id keeps it, if it is not empty (`FirstAt`)
    drawn     any other is given an id that is drawn

`getElem?_assign` says so of the option in each place.  While ids are given, those kept so far
are remembered, but not those drawn.  That all differ in the end is due to the supply, if what
it has for these drafts is new (`nodup_ids_assign`).
-/
import Parley.Proofs.Graph.Drawn

namespace Parley.Draft

/-- The `i`th draft is the first that has this id, which is not empty. -/
structure FirstAt (ds : List Draft) (i : Nat) (id : String) : Prop where
  named : id ≠ ""
  supplied : ds[i]?.bind (·.id) = some id
  before : ∀ d ∈ ds.take i, d.id ≠ some id

/-- The `i`th draft keeps its id, those in `seen` being kept before. -/
structure Keeps (seen : List String) (ds : List Draft) (i : Nat) (id : String) : Prop where
  first : FirstAt ds i id
  unseen : id ∉ seen

variable {d : Draft} {ds : List Draft} {seen : List String} {s : IdSupply} {i : Nat} {id : String}

/-! ## Ids that are kept -/

theorem firstAt_zero : FirstAt (d :: ds) 0 id ↔ d.id = some id ∧ id ≠ "" :=
  ⟨fun h => ⟨h.supplied, h.named⟩, fun h => ⟨h.2, h.1, nofun⟩⟩

theorem firstAt_succ : FirstAt (d :: ds) (i + 1) id ↔ d.id ≠ some id ∧ FirstAt ds i id := by
  constructor
  · rintro ⟨hnamed, hsupplied, hbefore⟩
    rw [List.take_succ_cons, List.forall_mem_cons] at hbefore
    exact ⟨hbefore.1, hnamed, hsupplied, hbefore.2⟩
  · rintro ⟨hfirst, hnamed, hsupplied, hbefore⟩
    refine ⟨hnamed, hsupplied, ?_⟩
    rw [List.take_succ_cons, List.forall_mem_cons]
    exact ⟨hfirst, hbefore⟩

theorem FirstAt.lt (h : FirstAt ds i id) : i < ds.length := by
  obtain ⟨d, hd, -⟩ := Option.bind_eq_some_iff.mp h.supplied
  exact (List.getElem?_eq_some_iff.mp hd).1

theorem FirstAt.mem_supplied (h : FirstAt ds i id) : id ∈ ds.filterMap (·.id) := by
  obtain ⟨d, hd, hid⟩ := Option.bind_eq_some_iff.mp h.supplied
  exact List.mem_filterMap.mpr ⟨d, List.mem_of_getElem? hd, hid⟩

theorem keeps_zero : Keeps seen (d :: ds) 0 id ↔ d.kept? seen = some id := by
  rw [kept?_eq_some_iff]
  constructor
  · rintro ⟨hfirst, hunseen⟩
    obtain ⟨hid, hne⟩ := firstAt_zero.mp hfirst
    exact ⟨hid, hne, hunseen⟩
  · rintro ⟨hid, hne, hunseen⟩
    exact ⟨firstAt_zero.mpr ⟨hid, hne⟩, hunseen⟩

theorem keeps_succ_of_some {kept : String} (hkept : d.kept? seen = some kept) :
    Keeps seen (d :: ds) (i + 1) id ↔ Keeps (kept :: seen) ds i id := by
  obtain ⟨hid, -, -⟩ := kept?_eq_some_iff.mp hkept
  constructor
  · rintro ⟨hfirst, hunseen⟩
    obtain ⟨hother, hfirst⟩ := firstAt_succ.mp hfirst
    refine ⟨hfirst, List.not_mem_cons_of_ne_of_not_mem ?_ hunseen⟩
    rintro rfl
    exact hother hid
  · rintro ⟨hfirst, hfree⟩
    obtain ⟨hother, hunseen⟩ := List.ne_and_not_mem_of_not_mem_cons hfree
    refine ⟨firstAt_succ.mpr ⟨fun hsame => ?_, hfirst⟩, hunseen⟩
    exact hother (Option.some.inj (hsame.symm.trans hid))

theorem keeps_succ_of_none (hkept : d.kept? seen = none) :
    Keeps seen (d :: ds) (i + 1) id ↔ Keeps seen ds i id := by
  constructor
  · rintro ⟨hfirst, hunseen⟩
    exact ⟨(firstAt_succ.mp hfirst).2, hunseen⟩
  · rintro ⟨hfirst, hunseen⟩
    refine ⟨firstAt_succ.mpr ⟨fun hid => ?_, hfirst⟩, hunseen⟩
    cases hkept.symm.trans (kept?_eq_some_iff.mpr ⟨hid, hfirst.named, hunseen⟩)

/-- An option has the id that its draft keeps.  If the draft keeps none, it is given one that
is drawn. -/
theorem getElem?_assign : ∀ {ds : List Draft} {seen : List String} {s : IdSupply} {i : Nat}
    {c : Choice}, (assign seen s ds).1[i]? = some c →
      Keeps seen ds i c.id ∨
        ((∀ id, ¬ Keeps seen ds i id) ∧ c.id ∈ (s.drawAll (lacking seen ds)).1)
  | [], _, _, _, _, h => nomatch h
  | d :: ds, seen, s, i, c, h => by
      rw [assign] at h
      rw [lacking]
      cases hkept : d.kept? seen with
      | some kept =>
          rw [hkept] at h
          dsimp only at h ⊢
          cases i with
          | zero =>
              cases h
              exact .inl (keeps_zero.mpr hkept)
          | succ i =>
              simp only [keeps_succ_of_some hkept]
              exact getElem?_assign h
      | none =>
          rw [hkept] at h
          dsimp only at h ⊢
          cases i with
          | zero =>
              cases h
              refine .inr ⟨fun id hkeeps => ?_, List.mem_cons_self⟩
              cases hkept.symm.trans (keeps_zero.mp hkeeps)
          | succ i =>
              simp only [keeps_succ_of_none hkept]
              exact (getElem?_assign h).imp_right (And.imp_right (List.mem_cons_of_mem _))

/-! ## Ids that differ

The argument goes along the list, with the ids that were kept so far.  An id that is kept is
among them from then on, so that it is not kept again; and one that is drawn is new to all
drafts, those to come included. -/

theorem mem_supplied_cons (h : id ∈ ds.filterMap (·.id)) : id ∈ (d :: ds).filterMap (·.id) :=
  ((List.sublist_cons_self d ds).filterMap _).subset h

theorem mem_ids_assign (h : id ∈ (assign seen s ds).1.map (·.id)) :
    (id ∈ ds.filterMap (·.id) ∧ id ≠ "" ∧ id ∉ seen) ∨ id ∈ (s.drawAll (lacking seen ds)).1 := by
  obtain ⟨c, hmem, rfl⟩ := List.mem_map.mp h
  obtain ⟨i, hc⟩ := List.mem_iff_getElem?.mp hmem
  rcases getElem?_assign hc with ⟨hfirst, hunseen⟩ | ⟨-, hdrawn⟩
  · exact .inl ⟨hfirst.mem_supplied, hfirst.named, hunseen⟩
  · exact .inr hdrawn

/-- An id that is kept is seen from then on, and one that is drawn was not supplied. -/
theorem nodup_ids_assign : ∀ {ds : List Draft} {seen : List String} {s : IdSupply},
    (s.drawAll (lacking seen ds)).1.Nodup →
      (∀ id ∈ (s.drawAll (lacking seen ds)).1, id ∉ ds.filterMap (·.id)) →
      ((assign seen s ds).1.map (·.id)).Nodup
  | [], _, _, _, _ => List.nodup_nil
  | d :: ds, seen, s, hdiffer, hnew => by
      rw [assign]
      rw [lacking] at hdiffer hnew
      cases hkept : d.kept? seen with
      | some kept =>
          rw [hkept] at hdiffer hnew
          dsimp only at hdiffer hnew ⊢
          have hown : kept ∈ (d :: ds).filterMap (·.id) := by
            rw [List.filterMap_cons_some (kept?_eq_some_iff.mp hkept).1]
            exact List.mem_cons_self
          refine List.nodup_cons.mpr ⟨?_, nodup_ids_assign hdiffer fun id hid hmem =>
            hnew id hid (mem_supplied_cons hmem)⟩
          intro hmem
          rcases mem_ids_assign hmem with ⟨-, -, hseen⟩ | hdrawn
          · exact hseen List.mem_cons_self
          · exact hnew kept hdrawn hown
      | none =>
          rw [hkept] at hdiffer hnew
          dsimp only at hdiffer hnew ⊢
          obtain ⟨hfirst, hrest⟩ := List.nodup_cons.mp hdiffer
          refine List.nodup_cons.mpr ⟨?_, nodup_ids_assign hrest fun id hid hmem =>
            hnew id (List.mem_cons_of_mem _ hid) (mem_supplied_cons hmem)⟩
          intro hmem
          rcases mem_ids_assign hmem with ⟨hid, -, -⟩ | hdrawn
          · exact hnew _ List.mem_cons_self (mem_supplied_cons hid)
          · exact hfirst hdrawn

theorem empty_not_mem_ids_assign : "" ∉ (assign seen s ds).1.map (·.id) := by
  intro hempty
  rcases mem_ids_assign hempty with ⟨-, hne, -⟩ | hdrawn
  · exact hne rfl
  · have hspared : s.Spares (s.drawAll (lacking seen ds)).2.used "" :=
      IdSupply.spares_of_isLabel (by decide)
    exact hspared.ne (IdSupply.drawn_drawAll (fun _ => isLabel_lacking) hdrawn) (Nat.le_refl _) rfl

end Parley.Draft
