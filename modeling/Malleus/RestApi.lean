import Malleus.Discovery

/-! The guest's address in a response of vfkit's REST API.

`vfkitIp` looks for a string first and parses it afterwards, so that a string which is
no address hides the ones behind it. `vfkitIp_finds` says when it finds the first
address of the response all the same. -/
namespace Malleus.RestApi
open Strings Numbers

/-! ### The first string and the first address -/

section First
variable {α β : Type} (f : α → Option β)

/-- The first element has no value, and a later one has. -/
def Hides (xs : List α) : Prop := xs.head?.bind f = none ∧ (xs.findSome? f).isSome = true

variable {f}

/-- Looking at the first element alone finds what looking at all does, unless it hides it. -/
theorem head?_bind_eq_findSome? {xs : List α} : xs.head?.bind f = xs.findSome? f ↔ ¬ Hides f xs := by
  cases xs with
  | nil => simp [Hides]
  | cons x xs =>
    cases hx : f x with
    | some b => simp [Hides, hx]
    | none =>
      cases hxs : xs.findSome? f with
      | some b => simp [Hides, hx, hxs]
      | none => simp [Hides, hx, hxs]

/-- Of two lists one after the other. -/
theorem heads_eq_findSome? {xs ys : List α} :
    (xs.head?.bind f).or (ys.head?.bind f) = (xs ++ ys).findSome? f ↔
      ((¬ Hides f xs ∧ (xs.findSome? f = none → ¬ Hides f ys)) ∨
        ((xs.findSome? f).isSome = true ∧ xs.findSome? f = ys.head?.bind f)) := by
  rw [List.findSome?_append]
  by_cases hxs : Hides f xs
  · -- nothing comes of the first list's head, so it is up to the second's
    obtain ⟨hnone, hsome⟩ := hxs
    obtain ⟨b, hb⟩ := Option.isSome_iff_exists.mp hsome
    have hhides : Hides f xs := ⟨hnone, hsome⟩
    rw [hnone, hb, Option.none_or, Option.some_or]
    constructor
    · intro h
      exact Or.inr ⟨rfl, h.symm⟩
    · intro h
      cases h with
      | inl hshown => exact absurd hhides hshown.1
      | inr hsame => exact hsame.2.symm
  · rw [head?_bind_eq_findSome?.mpr hxs]
    cases hfirst : xs.findSome? f with
    | some b => simp [hxs]
    | none =>
      rw [Option.none_or, Option.none_or, head?_bind_eq_findSome?]
      simp [hxs]

end First

/-! ### The response -/

/-- The text below the key `ip` of an object. -/
def ipOf (v : Json) : Option Text := (v.get "ip".toList).bind Json.asStr

/-- The strings at `vm.ip`, `ip` and `network.ip`. -/
def places (v : Json) : List Text :=
  [(v.get "vm".toList).bind ipOf, ipOf v, (v.get "network".toList).bind ipOf].filterMap id

/-- The strings at the `ip` of the network devices. -/
def deviceIps (v : Json) : List Text :=
  (((v.get "devices".toList).bind Json.asArray).getD []).filterMap virtionetIp

/-- The first address of the response. -/
def firstIp (v : Json) : Option Ipv4Addr := (places v ++ deviceIps v).findSome? Ipv4Addr.parse

/-- The code looks at the first string of the places and the first of the devices. -/
theorem vfkitIp_eq (v : Json) : vfkitIp v =
    ((places v).head?.bind Ipv4Addr.parse).or ((deviceIps v).head?.bind Ipv4Addr.parse) := by
  have hplaces : (places v).head? = ((v.get "vm".toList).bind ipOf).or
      ((ipOf v).or ((v.get "network".toList).bind ipOf)) := by
    rw [places, List.head?_filterMap, List.findSome?_cons, List.findSome?_cons, List.findSome?_cons]
    cases (v.get "vm".toList).bind ipOf with
    | some t => rfl
    | none =>
      cases ipOf v with
      | some t => rfl
      | none =>
        cases (v.get "network".toList).bind ipOf with
        | some t => rfl
        | none => rfl
  have hdevices : (deviceIps v).head? =
      ((v.get "devices".toList).bind Json.asArray).bind fun arr => arr.findSome? virtionetIp := by
    rw [deviceIps, List.head?_filterMap]
    cases (v.get "devices".toList).bind Json.asArray with
    | some arr => rfl
    | none => rfl
  rw [hplaces, hdevices]
  rfl

/-- **The first address of a response is found exactly when no string before it in its
group is in its way**: the first string of the places is an address, or none is one and
the same holds of the devices, or the first device has the very address. -/
theorem vfkitIp_finds (v : Json) : vfkitIp v = firstIp v ↔
    ((¬ Hides Ipv4Addr.parse (places v) ∧
        ((places v).findSome? Ipv4Addr.parse = none → ¬ Hides Ipv4Addr.parse (deviceIps v))) ∨
      (((places v).findSome? Ipv4Addr.parse).isSome = true ∧
        (places v).findSome? Ipv4Addr.parse = (deviceIps v).head?.bind Ipv4Addr.parse)) := by
  rw [vfkitIp_eq, firstIp]
  exact heads_eq_findSome?

/-- A guest that boots has an empty address under `vm`, which hides the one beside it. -/
def bootingGuest : Json :=
  .object [("vm".toList, .object [("ip".toList, .string [])]),
    ("ip".toList, .string "192.168.64.5".toList)]

theorem empty_hides : vfkitIp bootingGuest = none ∧
    firstIp bootingGuest = some ⟨192, 168, 64, 5⟩ := by
  decide +kernel

end Malleus.RestApi
