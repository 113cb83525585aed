import Marquee.Config.Basic
import Mathlib.Data.List.Infix

/-!
# Addresses Tell Emotes Apart

The address of a picture is a template with the number of an emote in every place that is marked.
Around the first mark an address is cut into what stands before it, the number, and what comes
of the rest. The first piece is the same for every number, and a longer number makes the last one
no shorter. So addresses that agree are those of numbers of one length, in one place: the same
number. This does not depend on what numbers look like, on how many marks there are, or on what
stands around them. Without a mark every emote has the template for its address.

## Main statements

* `exists_fill_eq` — an address is cut at the first mark;
* `urlFor_injective` — with a mark, addresses tell emotes apart;
* `urlFor_of_not_marked` — without one, all addresses are the template.
-/

namespace Marquee.EmoteSettings

/-- What stands where the number of an emote belongs. -/
def mark : List Char := ['\x7b', 'i', 'd', '\x7d']

/-- Whether the template has a mark. -/
def Marked (e : EmoteSettings) : Prop := mark <:+: e.urlTemplate.toList

instance (e : EmoteSettings) : Decidable e.Marked :=
  inferInstanceAs (Decidable (mark <:+: e.urlTemplate.toList))

section Fill

variable {id id' s : List Char} {c : Char}

/-- A mark is replaced, and what follows it is filled in turn. -/
theorem fill_mark (id s : List Char) : fill id (mark ++ s) = id ++ fill id s := rfl

/-- A character that no mark begins with is kept. -/
theorem fill_cons (id : List Char) (h : ¬ mark <+: c :: s) :
    fill id (c :: s) = c :: fill id s := by
  refine fill.eq_2 id c s fun r hc hs => h ?_
  rw [hc, hs]
  exact List.prefix_append mark r

/-- Without a mark nothing is replaced. -/
theorem fill_of_not_infix (h : ¬ mark <:+: s) : fill id s = s := by
  induction s with
  | nil => rfl
  | cons c s ih =>
    rw [List.infix_cons_iff, not_or] at h
    rw [fill_cons id h.1, ih h.2]

/-- **An address is cut at the first mark.** Induction on the template up to there. -/
theorem exists_fill_eq (h : mark <:+: s) :
    ∃ before after, ∀ id, fill id s = before ++ (id ++ fill id after) := by
  induction s with
  | nil => exact absurd (List.infix_nil.1 h) (by decide)
  | cons c s ih =>
    by_cases here : mark <+: c :: s
    · obtain ⟨after, hafter⟩ := here
      exact ⟨[], after, fun id => by rw [← hafter, fill_mark]; rfl⟩
    · obtain ⟨before, after, hcut⟩ := ih ((List.infix_cons_iff.1 h).resolve_left here)
      exact ⟨c :: before, after, fun id => by rw [fill_cons id here, hcut]; rfl⟩

/-- A longer number makes an address no shorter. -/
theorem length_fill_mono (hle : id.length ≤ id'.length) (s : List Char) :
    (fill id s).length ≤ (fill id' s).length := by
  fun_induction fill id s with
  | case1 s ih =>
    rw [fill, List.length_append, List.length_append]
    exact Nat.add_le_add hle ih
  | case2 c s h ih =>
    rw [fill.eq_2 id' c s h]
    exact Nat.succ_le_succ ih
  | case3 => exact Nat.le_refl _

/-- **A template with a mark** shows what it was filled with. Of the number and what comes of the
rest, neither is shorter in the address of the longer number, so neither is longer. -/
theorem fill_injective (h : mark <:+: s) (heq : fill id s = fill id' s) : id = id' := by
  wlog hle : id.length ≤ id'.length generalizing id id'
  · exact (this heq.symm (Nat.le_of_not_le hle)).symm
  obtain ⟨before, after, hcut⟩ := exists_fill_eq h
  rw [hcut, hcut] at heq
  have hrest : id ++ fill id after = id' ++ fill id' after := List.append_cancel_left heq
  have hlength := congrArg List.length hrest
  rw [List.length_append, List.length_append] at hlength
  have hafter := length_fill_mono hle after
  exact (List.append_inj hrest (by omega)).1

end Fill

variable {e : EmoteSettings}

/-- **With a mark**, emotes with one address are one emote. -/
theorem urlFor_injective (marked : e.Marked) : Function.Injective e.urlFor := by
  intro id id' heq
  have hfill : fill id.toList e.urlTemplate.toList = fill id'.toList e.urlTemplate.toList :=
    String.ofList_injective heq
  exact String.toList_inj.1 (fill_injective marked hfill)

/-- **Without a mark**, every emote has the template for its address. -/
theorem urlFor_of_not_marked (plain : ¬ e.Marked) (id : String) : e.urlFor id = e.urlTemplate := by
  rw [urlFor, fill_of_not_infix plain, String.ofList_toList]

end Marquee.EmoteSettings
