import VirtualList.Proofs.Reanchoring

namespace VirtualList
namespace Viewport

variable {shape : WindowShape} {nonempty : 0 < shape.bucket} {viewport : Viewport}

inductive Look where
  | asked (count : Nat) (find? : ItemKey → Option Nat)
  | shown (source : ItemSource)

namespace Look

def count : Look → Nat
  | asked count _ => count
  | shown source => source.count

def action : Look → Action
  | asked count find? => .reanchored count find?
  | shown source => .reanchoredIn source

end Look

-- An empty list leaves the front.
def cut (first : Nat) (counts : List Nat) : Nat := (counts.map (· - 1)).foldl min first

theorem cut_cons (first count : Nat) (rest : List Nat) :
    cut first (count :: rest) = cut (min first (count - 1)) rest := rfl

theorem cut_isLeast (first : Nat) (counts : List Nat) :
    IsLeast (insert first {place | ∃ count ∈ counts, place = max count 1 - 1}) (cut first counts) := by
  have least : (first :: counts.map (· - 1)).min? = some (cut first counts) := List.min?_cons'
  obtain ⟨member, lower⟩ := List.min?_eq_some_iff.mp least
  constructor
  · rcases List.mem_cons.mp member with front | passed
    · exact .inl front
    · obtain ⟨count, shown, same⟩ := List.mem_map.mp passed
      exact .inr ⟨count, shown, by omega⟩
  · rintro place (rfl | ⟨count, shown, rfl⟩)
    · exact lower _ List.mem_cons_self
    · have bound := lower _ (List.mem_cons_of_mem _ (List.mem_map_of_mem shown))
      omega

theorem jumpTo_value (centred : Centred shape nonempty viewport) (first : Nat) (offset : Offset) :
    (viewport.jumpTo first offset).value = ofWindow (.ofShape shape nonempty first) offset :=
  measured_value centred first offset none

theorem reanchor_of_unseen (first : Nat) (offset : Offset) (count : Nat)
    (find? : ItemKey → Option Nat) :
    ((ofWindow (.ofShape shape nonempty first) offset).reanchor count find?).value =
      ofWindow (.ofShape shape nonempty (min first (count - 1))) offset := by
  have centred : Centred shape nonempty (ofWindow (.ofShape shape nonempty first) offset) := rfl
  exact reanchor_value centred count find?

theorem look_of_unseen (first : Nat) (offset : Offset) (look : Look) :
    ((ofWindow (.ofShape shape nonempty first) offset).step look.action).value =
      ofWindow (.ofShape shape nonempty (min first (look.count - 1))) offset := by
  cases look with
  | asked count find? => exact reanchor_of_unseen first offset count find?
  | shown source => exact reanchor_of_unseen first offset source.count source.indexOf?

theorem looks_of_unseen (first : Nat) (offset : Offset) (looks : List Look) :
    ((ofWindow (.ofShape shape nonempty first) offset).run (looks.map Look.action)).value =
      ofWindow (.ofShape shape nonempty (cut first (looks.map Look.count))) offset := by
  induction looks generalizing first with
  | nil => rfl
  | cons look rest ih =>
    simp only [List.map_cons, run_cons, look_of_unseen, cut_cons]
    exact ih _

theorem run_of_jump (centred : Centred shape nonempty viewport) (first : Nat) (offset : Offset)
    (looks : List Look) :
    (viewport.run (.jumped first offset :: looks.map Look.action)).value =
      ofWindow (.ofShape shape nonempty (cut first (looks.map Look.count))) offset := by
  simp only [run_cons, step, jumpTo_value centred]
  exact looks_of_unseen first offset looks

-- Whatever the viewport was and whatever the lists hold, it ends as one that was started at the
-- place left to it. So do two viewports of one shape that see lists of the same counts.
theorem jump_forgets {viewport : Viewport} (path : Reached viewport) (first : Nat)
    (offset : Offset) (looks : List Look) :
    let last := fun (viewport : Viewport) (looks : List Look) =>
      (viewport.run (.jumped first offset :: looks.map Look.action)).value
    let final := last viewport looks
    IsLeast (insert first {place | ∃ look ∈ looks, place = max look.count 1 - 1}) final.first ∧
      final.offset = offset ∧ final.anchor = none ∧
      viewport.window.shape.rangeAt final.first = .ok final.window.range ∧
      start viewport.window.shape final.first offset = .ok final ∧
      ∀ (other : Viewport) (others : List Look), other.Reached →
        other.window.shape = viewport.window.shape →
        others.map Look.count = looks.map Look.count → last other others = final := by
  intro last final
  have ended : final = ofWindow (.ofShape viewport.window.shape viewport.window.nonempty
      (cut first (looks.map Look.count))) offset := run_of_jump (reached_own path) first offset looks
  rw [ended]
  refine ⟨?_, rfl, rfl, WindowShape.rangeAt_eq_ok viewport.window.nonempty _,
    start_eq_ok viewport.window.nonempty _ _, ?_⟩
  · have least := cut_isLeast first (looks.map Look.count)
    simp only [List.mem_map, exists_exists_and_eq_and] at least
    exact least
  · intro other others otherPath alike counts
    have otherEnded := run_of_jump (reached_own otherPath) first offset others
    simp only [alike, counts] at otherEnded
    exact otherEnded

-- The one viewport remembers a key that the first of its lists has, and is far down its list.
theorem jump_forgets_two_histories :
    let viewport := ((default : Viewport).measured 400 ⟨9⟩ (some (.authored 7))).value
    let last := fun (viewport : Viewport) (looks : List Look) =>
      (viewport.run (.jumped 25 .zero :: looks.map Look.action)).value
    let looks := [Look.asked 30 fun _ => some 3, .shown (.ofCount 12), .asked 20 fun _ => none]
    let others := [Look.shown (.ofCount 30), .asked 12 fun _ => some 5, .shown (.ofCount 20)]
    viewport.Reached ∧ (last viewport looks).first = 11 ∧ (last viewport looks).anchor = none ∧
      last default others = last viewport looks := by
  intro viewport last looks others
  have path : viewport.Reached := .measured 400 ⟨9⟩ (some (.authored 7)) .standard
  obtain ⟨least, _, anchor, _, _, alike⟩ := jump_forgets path 25 .zero looks
  have shape : (default : Viewport).window.shape = viewport.window.shape :=
    (measured_shape default 400 _ _).symm
  have eleven : IsLeast
      (insert 25 {place | ∃ look ∈ looks, place = max look.count 1 - 1}) 11 := by
    constructor
    · exact .inr ⟨.shown (.ofCount 12), by simp [looks], rfl⟩
    · rintro place (rfl | ⟨look, member, rfl⟩)
      · decide
      · simp only [looks, List.mem_cons, List.not_mem_nil, or_false] at member
        rcases member with rfl | rfl | rfl
        · decide
        · decide
        · decide
  exact ⟨path, least.unique eleven, anchor, alike default others .standard shape rfl⟩

end Viewport
end VirtualList
