import Marquee.Proofs.Stage.Transparent

/-!
# What Stands under One Key

Over one store headings are set with parameters of several kinds. The key of a solid tells its
parameters apart, except for numbers that are not finite, and so does the store: a heading gets
solids that were built from parameters which agree with its own in all else. Where no two numbers
can be mistaken, it gets its own.

## Main statements

* `shared_solids` — which parameters share a key, and whose solids a heading gets.
-/

namespace Marquee

open Fetch Font Heading Markup Scene Stage Store

variable {w w' : Stage} {a : Act} {acts : List Act} {fonts : Family} {kind : Extrusion → Prop}
  {o : Options} {leaves : List Leaf}

/-- **A heading that is set** over a store of things made for their keys is served by it. -/
theorem Step.serves (step : Step w a w') (shares : a.Shares fonts kind)
    (made : w.store.Made fonts kind) (sheet : a.sheet = some (o, leaves)) :
    ∃ h, w'.headings[w.headings.length]? = some h ∧ ∀ (i : Nat) leaf, leaves[i]? = some leaf →
      ∃ g, h.row.child? i = some g ∧ Serves o kind leaf g := by
  obtain ⟨rfl, params⟩ := shares o leaves sheet
  cases step with
  | set o loader leaves =>
    cases sheet
    exact ⟨_, List.getElem?_concat_length, fun i leaf => child?_served made params loader⟩
  | compile o loader markup =>
    cases sheet
    exact ⟨_, List.getElem?_concat_length, fun i leaf =>
      child?_served (made_clear _ _ w.store) params loader⟩
  | clear | take | apply => cases sheet

/-- **Solids are shared by what shares a key.** Parameters share a fingerprint if and only if
they agree, but for numbers that are not finite in either; so they are equal, unless two such
numbers differ.

Programs run over one store, their headings set by any options with one family. Each text that is
not blank gets a solid of that text, built from parameters of some heading that agree with those
of its own but for numbers that are not finite; and from its own, unless such numbers of two
headings differ. -/
theorem shared_solids (run : Run .start acts w) (shares : ∀ a ∈ acts, a.Shares fonts kind) :
    (∀ p q : Extrusion, p.fingerprint = q.fingerprint ↔ p.Alike q) ∧
    (∀ p q : Extrusion, p.Sharp q → p.fingerprint = q.fingerprint → p = q) ∧
    ∀ a w', Step w a w' → a.Shares fonts kind → ∀ o leaves, a.sheet = some (o, leaves) →
      ∃ h, w'.headings[w.headings.length]? = some h ∧
        ∀ (i : Nat) value color style, leaves[i]? = some (.text value color style) →
          Text.core value.toList ≠ [] → ∃ g m p, h.row.child? i = some g ∧
            g.children = [.mesh m] ∧ kind p ∧ p.Alike o.geometry ∧
            m.geometry = typeset (.ofList (Text.core value.toList)) style
              (fonts.select style).1 p ∧
            ((∀ q, kind q → q.Sharp o.geometry) → p = o.geometry) := by
  refine ⟨fun p q => Extrusion.fingerprint_eq_iff, fun p q sharp hprint =>
    (Extrusion.fingerprint_eq_iff.1 hprint).eq sharp, ?_⟩
  intro a w' step hshares o leaves hsheet
  obtain ⟨rfl, -⟩ := hshares o leaves hsheet
  obtain ⟨h, here, hserves⟩ := step.serves hshares (run.made shares (made_start _ kind)) hsheet
  refine ⟨h, here, fun i value color style hleaf ink => ?_⟩
  obtain ⟨g, hg, serves⟩ := hserves i _ hleaf
  obtain ⟨m, p, hchildren, hp, halike, hsolid⟩ := serves value color style rfl ink
  exact ⟨g, m, p, hg, hchildren, hp, halike, hsolid, fun sharp => halike.eq (sharp p hp)⟩

/-- The options of a heading with text of some depth. -/
def Heading.Options.deep (depth : Float32) : Options :=
  { Options.inkless with geometry := { Options.inkless.geometry with depth } }

/-- A text is set at a finite depth, and then at an infinite one. The two are told apart, so the
second heading has a solid of its own. -/
theorem infinite_depth_behind_finite :
    ∃ depth w w' h g m, ¬ depth.isFinite ∧
      Run .start [.set (.deep 50) Loader.offline [.text "a" "white" .regular]] w ∧
      Step w (.set (.deep depth) Loader.offline [.text "a" "white" .regular]) w' ∧
      w'.headings[1]? = some h ∧ h.row.child? 0 = some g ∧ g.children = [.mesh m] ∧
      m.geometry.params.depth = depth := by
  let depth := Float32.ofBits 0x7f800000
  let kind (p : Extrusion) : Prop :=
    p = (Options.deep 50).geometry ∨ p = (Options.deep depth).geometry
  have shares : ∀ d, kind (Options.deep d).geometry →
      (Act.set (.deep d) Loader.offline [.text "a" "white" .regular]).Shares
        Options.inkless.fonts kind := by
    rintro d hd o leaves hsheet
    cases hsheet
    exact ⟨rfl, hd⟩
  have run : Run .start [.set (.deep 50) Loader.offline [.text "a" "white" .regular]] _ :=
    .cons (.set _ _ _) .nil
  have finite : (Options.deep 50).geometry.IsFinite := ⟨rfl, rfl, rfl, rfl, rfl⟩
  have sharp : ∀ q, kind q → q.Sharp (Options.deep depth).geometry := by
    rintro q (rfl | rfl)
    · exact finite.sharp _
    · exact fun m _ => .inr (.inr rfl)
  obtain ⟨-, -, hserved⟩ := shared_solids run (List.forall_mem_singleton.2 (shares 50 (.inl rfl)))
  obtain ⟨h, here, hmesh⟩ := hserved _ _ (.set _ _ _) (shares depth (.inr rfl)) _ _ rfl
  obtain ⟨g, m, p, hg, hchildren, -, -, hsolid, hown⟩ :=
    hmesh 0 "a" "white" .regular rfl (by decide)
  refine ⟨depth, _, _, h, g, m, by decide +kernel, run, .set _ _ _, here, hg, hchildren, ?_⟩
  rw [hsolid, hown sharp]
  rfl

/-- A text is set at a depth that is infinite to the front, and then at one that is infinite to
the back. The two depths have one key, so the second heading has the solid of the first. -/
theorem infinite_depths_share_solid :
    ∃ front back w h g m, (Options.deep front).geometry.fingerprint =
        (Options.deep back).geometry.fingerprint ∧ front ≠ back ∧
      Run .start [.set (.deep front) Loader.offline [.text "a" "white" .regular],
        .set (.deep back) Loader.offline [.text "a" "white" .regular]] w ∧
      w.headings[1]? = some h ∧ h.row.child? 0 = some g ∧ g.children = [.mesh m] ∧
      m.geometry.params.depth = front := by
  let front := Float32.ofBits 0x7f800000
  let back := Float32.ofBits 0xff800000
  have alike : (Options.deep back).geometry.Alike (Options.deep front).geometry := by
    refine ⟨?_, rfl, rfl, rfl⟩
    simp only [Extrusion.measures, List.forall_mem_cons]
    exact ⟨.inl rfl, .inr ⟨by decide +kernel, by decide +kernel⟩, .inl rfl, .inl rfl, .inl rfl,
      List.forall_mem_nil _⟩
  have run : Run .start [.set (.deep front) Loader.offline [.text "a" "white" .regular],
      .set (.deep back) Loader.offline [.text "a" "white" .regular]] _ :=
    .cons (.set _ _ _) (.cons (.set _ _ _) .nil)
  have ink : Text.core "a".toList ≠ [] := by decide
  obtain ⟨g, m, hg, hchildren, hsolid⟩ :=
    solid_again alike {} Loader.offline Loader.offline ink "white" "white" .regular
  have hne : front ≠ back := by decide +kernel
  refine ⟨front, back, _, _, g, m, (Extrusion.fingerprint_eq_iff.2 alike).symm, hne,
    run, ?_, hg, hchildren, ?_⟩
  · exact List.getElem?_concat_length
  · rw [hsolid, params_solidOf_start]
    rfl

end Marquee
