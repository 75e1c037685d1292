/-
# Options with ids of their own, and patches given twice

One to five drafts become options, and `Identifies` says with what ids.  That these differ, and
that those drawn are none that a draft came with, takes a supply whose ids are new (`DrawsNew`).

Where each draft has an id of its own already, it keeps it and nothing is drawn.  So what such
drafts stand for does not depend on the supply, and a patch with such options or with none says
nothing more when it is merged again (`merge?_again`).  A block whose content it was merged into
has the result for its content, hence a graph refuses the same patch (`Settles`).
-/
import Parley.Proofs.Graph.Revised

namespace Parley

namespace Draft

/-- The ids that are drawn for drafts differ, and no draft has one of them. -/
structure DrawsNew (s : IdSupply) (ds : List Draft) : Prop where
  differ : (s.drawAll (lacking [] ds)).1.Nodup
  new : ∀ id ∈ (s.drawAll (lacking [] ds)).1, id ∉ ds.filterMap (·.id)

instance (s : IdSupply) (ds : List Draft) : Decidable (DrawsNew s ds) :=
  decidable_of_iff ((s.drawAll (lacking [] ds)).1.Nodup ∧
      ∀ id ∈ (s.drawAll (lacking [] ds)).1, id ∉ ds.filterMap (·.id))
    ⟨fun h => ⟨h.1, h.2⟩, fun h => ⟨h.1, h.2⟩⟩

/-- Every draft has an id, the ids differ, and none is empty. -/
structure Identified (ds : List Draft) : Prop where
  supplied : none ∉ ds.map (·.id)
  named : some "" ∉ ds.map (·.id)
  differ : (ds.map (·.id)).Nodup

instance (ds : List Draft) : Decidable (Identified ds) :=
  decidable_of_iff (none ∉ ds.map (·.id) ∧ some "" ∉ ds.map (·.id) ∧ (ds.map (·.id)).Nodup)
    ⟨fun h => ⟨h.1, h.2.1, h.2.2⟩, fun h => ⟨h.1, h.2, h.3⟩⟩

/-- The options `cs` are the drafts `ds` with ids of their own, some of them drawn. -/
structure Identifies (s s' : IdSupply) (ds : List Draft) (cs : List Choice) : Prop where
  labels : cs.map (·.label) = ds.map (·.label)
  named : "" ∉ cs.map (·.id)
  kept : ∀ i id, FirstAt ds i id → cs[i]?.map (·.id) = some id
  drawn : ∀ i c, cs[i]? = some c → (∀ id, ¬ FirstAt ds i id) → s.Drawn s' c.id
  new : DrawsNew s ds → ∀ i c, cs[i]? = some c → (∀ id, ¬ FirstAt ds i id) →
    c.id ∉ ds.filterMap (·.id)
  differ : DrawsNew s ds → (cs.map (·.id)).Nodup

/-- Drafts are turned into options if there are one to five of them. -/
structure Normalizes (s : IdSupply) (ds : List Draft) : Prop where
  refuses : normalize? s ds = none ↔ ¬ (1 ≤ ds.length ∧ ds.length ≤ 5)
  identifies : ∀ cs s', normalize? s ds = some (cs, s') → Identifies s s' ds cs
  /-- Drafts with ids of their own stay as they are. -/
  identity : Identified ds → ∀ cs s', normalize? s ds = some (cs, s') →
    cs.map Choice.toDraft = ds ∧ s' = s

end Draft

/-- Merged a second time, the patch changes nothing more, and a graph refuses it. -/
structure Block.Patch.Settles (p : Patch) : Prop where
  merge : ∀ s s' content content', p.merge? s content = some (content', s') →
    ∀ s'', p.merge? s'' content' = some (content', s'')
  revise : ∀ (g : Graph) s id r, g.revise? s id p = some r → ∀ s'', r.1.revise? s'' id p = none

namespace Draft

variable {ds : List Draft} {cs : List Choice} {s s' : IdSupply}

/-! ## The options that drafts stand for -/

theorem mem_drawn_of_getElem?_assign {i : Nat} {c : Choice}
    (hc : (assign [] s ds).1[i]? = some c) (hnone : ∀ id, ¬ FirstAt ds i id) :
    c.id ∈ (s.drawAll (lacking [] ds)).1 :=
  ((getElem?_assign hc).resolve_left fun h => hnone c.id h.first).2

theorem identifies_assign (s : IdSupply) (ds : List Draft) :
    Identifies s (assign [] s ds).2 ds (assign [] s ds).1 where
  labels := labels_assign [] s ds
  named := empty_not_mem_ids_assign
  kept := by
    intro i id hfirst
    have hi : i < (assign [] s ds).1.length := by
      rw [length_assign]
      exact hfirst.lt
    have hc := List.getElem?_eq_getElem hi
    rcases getElem?_assign hc with ⟨hown, -⟩ | ⟨hnone, -⟩
    · rw [hc, Option.map_some, ← hown.supplied, hfirst.supplied]
    · exact absurd ⟨hfirst, List.not_mem_nil⟩ (hnone id)
  drawn := by
    intro i c hc hnone
    rw [supply_assign]
    exact IdSupply.drawn_drawAll (fun _ => isLabel_lacking) (mem_drawn_of_getElem?_assign hc hnone)
  new := fun hnew _ _ hc hnone => hnew.new _ (mem_drawn_of_getElem?_assign hc hnone)
  differ := fun hnew => nodup_ids_assign hnew.differ hnew.new

/-! ## Drafts with ids of their own -/

theorem Identified.exists_choices (h : Identified ds) :
    ∃ cs : List Choice, ds = cs.map Choice.toDraft ∧ (cs.map (·.id)).Nodup ∧
      "" ∉ cs.map (·.id) := by
  obtain ⟨cs, rfl⟩ : ∃ cs : List Choice, ds = cs.map Choice.toDraft := by
    refine ⟨ds.map fun d => ⟨d.id.getD "", d.label⟩, ?_⟩
    rw [List.map_map]
    refine (List.map_id ds).symm.trans (List.map_congr_left fun d hd => ?_)
    obtain ⟨id, label⟩ := d
    cases id with
    | none => exact absurd (List.mem_map_of_mem hd) h.supplied
    | some id => rfl
  have hids : (cs.map Choice.toDraft).map (·.id) = (cs.map (·.id)).map some := by
    rw [List.map_map, List.map_map]
    rfl
  obtain ⟨-, hnamed, hdiffer⟩ := h
  rw [hids] at hnamed hdiffer
  exact ⟨cs, rfl, hdiffer.of_map _, fun hempty => hnamed (List.mem_map_of_mem hempty)⟩

/-- What they stand for does not depend on the supply, and nothing is drawn. -/
theorem normalize?_of_identified (hds : Identified ds) (h : normalize? s ds = some (cs, s')) :
    cs.map Choice.toDraft = ds ∧ s' = s ∧ ∀ s'', normalize? s'' ds = some (cs, s'') := by
  obtain ⟨own, rfl, hdiffer, hnamed⟩ := hds.exists_choices
  obtain ⟨hfewest, hmost, -⟩ := normalize?_eq_some h
  rw [List.length_map] at hfewest hmost
  have hproper : ProperChoices own := ⟨hfewest, hmost, hdiffer, hnamed⟩
  cases (normalize?_toDraft hproper).symm.trans h
  exact ⟨rfl, rfl, fun _ => normalize?_toDraft hproper⟩

theorem normalizes (s : IdSupply) (ds : List Draft) : Normalizes s ds where
  refuses := by
    rw [normalize?_eq_none_iff, fewest, most]
    omega
  identifies := by
    intro cs s' h
    obtain ⟨-, -, hassign⟩ := normalize?_eq_some h
    obtain rfl : cs = (assign [] s ds).1 := congrArg Prod.fst hassign
    obtain rfl : s' = (assign [] s ds).2 := congrArg Prod.snd hassign
    exact identifies_assign s ds
  identity := by
    intro hds cs s' h
    obtain ⟨hback, hsupply, -⟩ := normalize?_of_identified hds h
    exact ⟨hback, hsupply⟩

end Draft

/-! ## Patches given twice

A patch that was merged has set each field it names.  Merged again it sets them to what they
are, but for the options, of which this has to be seen: that they are what the drafts stand
for, whatever the supply. -/

namespace Block.Patch

variable {p : Patch} {s s' : IdSupply} {content content' : Content}

theorem getD_getD {α : Type} (o : Option α) (x : α) : o.getD (o.getD x) = o.getD x := by
  cases o <;> rfl

/-- A patch whose options have ids of their own gives the same again. -/
theorem merge?_again (hp : ∀ ds ∈ p.choices, Draft.Identified ds)
    (h : p.merge? s content = some (content', s')) (s'' : IdSupply) :
    p.merge? s'' content' = some (content', s'') := by
  cases content with
  | buttons message binds cs =>
      simp only [merge?] at h
      split at h
      · rename_i hnone
        cases h
        simp only [merge?, hnone, getD_getD]
      · rename_i ds hds
        obtain ⟨⟨cs', s₁⟩, hnormal, heq⟩ := Option.map_eq_some_iff.mp h
        cases heq
        have hagain := (Draft.normalize?_of_identified (hp ds hds) hnormal).2.2 s''
        simp only [merge?, hds, hagain, getD_getD, Option.map_some]
  | welcome | message | question | field | goodbye =>
      cases h
      simp only [merge?, getD_getD]

theorem settles_of_identified (hp : ∀ ds ∈ p.choices, Draft.Identified ds) : p.Settles where
  merge := fun _ _ _ _ h => merge?_again hp h
  revise := by
    intro g s id r h s''
    obtain ⟨b, content, s', hb, hmerge, -, rfl⟩ := Graph.revise?_eq_some h
    have hb' : (g.withContent id content).block? id = some { b with content } := by
      rw [Graph.block?_withContent, hb, Option.map_some]
    simp only [Graph.revise?, hb', merge?_again hp hmerge s'', Option.bind_eq_bind,
      Option.bind_some, if_pos]

end Block.Patch

/-- **Options have ids of their own, and a patch says all it has to say at once.**  One to five
drafts become as many options, which keep the ids that they can keep and are given new ones
otherwise.  If the options of a patch have ids of their own, or there are none, it changes
nothing when it is merged again. -/
theorem normalizes_and_settles (s : IdSupply) (ds : List Draft) (p : Block.Patch)
    (hp : ∀ ds ∈ p.choices, Draft.Identified ds) : Draft.Normalizes s ds ∧ p.Settles :=
  ⟨Draft.normalizes s ds, Block.Patch.settles_of_identified hp⟩

/-- Some of these drafts have no id, the empty one or one that is taken. -/
def jumbled : List Draft :=
  [⟨some "yes", "Yes"⟩, ⟨none, "No"⟩, ⟨some "yes", "Sure"⟩, ⟨some "", "Maybe"⟩, ⟨some "no", "Never"⟩]

/-- Another question, with other options, whose answer is not kept. -/
def rephrasing : Block.Patch :=
  { message := some "Well?", binds := some none,
    choices := some [⟨some "no", "No"⟩, ⟨some "yes", "Yes"⟩] }

theorem normalizes_and_settles_jumbled :
    Draft.DrawsNew ⟨toString, 0⟩ jumbled ∧
      ((Draft.normalize? ⟨toString, 0⟩ jumbled).map fun r => r.1.map (·.id)) =
        some ["yes", "btn-0", "btn-1", "btn-2", "no"] ∧
      (∀ ds ∈ rephrasing.choices, Draft.Identified ds) ∧
      Draft.Normalizes ⟨toString, 0⟩ jumbled ∧ rephrasing.Settles := by
  have hnew : Draft.DrawsNew ⟨toString, 0⟩ jumbled := by decide +kernel
  have hids : ((Draft.normalize? ⟨toString, 0⟩ jumbled).map fun r => r.1.map (·.id)) =
      some ["yes", "btn-0", "btn-1", "btn-2", "no"] := by decide +kernel
  have hp : ∀ ds ∈ rephrasing.choices, Draft.Identified ds := by decide
  exact ⟨hnew, hids, hp, normalizes_and_settles ⟨toString, 0⟩ jumbled rephrasing hp⟩

end Parley
