import RegisterIR.Encoding.Cache
import RegisterIR.Program

/-! Listings of the encodings of a program. -/

namespace RegisterIR

structure EncodingListing where
  name : String
  elements : List (String × ElementEncoding)

namespace EncodingListing

def strategy (listing : EncodingListing) : Strategy := listing.elements.map Prod.snd

def lines (listing : EncodingListing) : List String :=
  listing.elements.map fun (name, encoding) => name ++ ": " ++ encoding.render

end EncodingListing

namespace Program

def encodingsOf (enums : List Enumeration) :
    List (Enumeration × EnumId) → Cached (List EncodingListing)
  | [] => pure []
  | (enumeration, id) :: rest => do
    let strategy ← Strategy.require enums id
    let listings ← encodingsOf enums rest
    let elements := (enumeration.elements.map Element.name).zip strategy
    pure (⟨enumeration.name, elements⟩ :: listings)

def encodings (program : Program) : Traced (List EncodingListing) := do
  let (listings, _) ← (encodingsOf program.enums program.enums.zipIdx).run .empty
  pure listings

end Program

end RegisterIR
