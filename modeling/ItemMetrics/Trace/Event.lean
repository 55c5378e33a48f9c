import ItemMetrics.Json.Basic

/-! Events with a name and attributes. -/

namespace ItemMetrics

structure Event where
  name : String
  attributes : Json.Members

namespace Event

/-- An event whose attributes are the given ones, in the order of their keys. -/
def of (name : String) (attributes : List (String × Json)) : Event :=
  ⟨name, Json.Members.ofList attributes⟩

/-- The members of an object; any other value has no attributes. -/
def attributesOf : Json → Json.Members
  | .object ms => ms
  | _ => []

def attribute? (e : Event) (key : String) : Option Json :=
  e.attributes.get? key

/-- The attributes with the name put under `event`. An attribute of that name takes its place. -/
def record (e : Event) : Json :=
  .ofMembers (("event", .string e.name) :: e.attributes)

/-- The event with its attributes apart. -/
def toJson (e : Event) : Json :=
  .object [("name", .string e.name), ("attributes", .object e.attributes)]

end Event
end ItemMetrics
