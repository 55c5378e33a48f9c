import ItemMetrics.Report.Console

/-! The report as a JSON document. -/

namespace ItemMetrics.Report

def Item.toJson (item : Item) : Json :=
  .object
    [("id", .string item.id), ("item_type", .string item.type),
      ("derived", item.evaluation.toJson)]

/-- The report with two spaces of indentation a level, values in the order of declaration. -/
def document (items : List Item) : String :=
  line ((Json.object [("items", .array (items.map Item.toJson))]).pretty 0)

end ItemMetrics.Report
