import PdfSchema.Document.Filter
import PdfSchema.Filter.OfText

namespace PdfSchema.Filter

/-- The filters that `ofText?` reads, as a language. It says no more of a fault than where it is. -/
def language : FilterLanguage where
  run text v := match ofText? text with
    | none => .error (.malformed [(text, "no filter")])
    | some f => match f.undefinedNames with
      | [] => match f.eval v with
        | none => .ok [.error "a step does not apply"]
        | some vs => .ok (vs.map fun w => .ok w.render)
      | names => .error (.undefinedNames [(text, names.map fun name => (name, "no meaning"))])

end PdfSchema.Filter
