/-!
# Media features

The features that a media query can test, and how the values of each are compared.
-/

namespace MediaQuery

/-- The media features. -/
inductive Feature where
  | width
  | height
  | deviceWidth
  | deviceHeight
  | aspectRatio
  | deviceAspectRatio
  | orientation
  | resolution
  | scan
  | grid
  | color
  | colorIndex
  | monochrome
  deriving DecidableEq, Repr

/-- What the values of a feature are. -/
inductive FeatureKind where
  | length
  | ratio
  | resolution
  | integer
  | keyword
  deriving DecidableEq, Repr

namespace Feature

/-- The feature with a given name. -/
def ofName? : String → Option Feature
  | "width" => some .width
  | "height" => some .height
  | "device-width" => some .deviceWidth
  | "device-height" => some .deviceHeight
  | "aspect-ratio" => some .aspectRatio
  | "device-aspect-ratio" => some .deviceAspectRatio
  | "orientation" => some .orientation
  | "resolution" => some .resolution
  | "scan" => some .scan
  | "grid" => some .grid
  | "color" => some .color
  | "color-index" => some .colorIndex
  | "monochrome" => some .monochrome
  | _ => none

/-- The kind of values that a feature has. -/
def kind : Feature → FeatureKind
  | .width => .length
  | .height => .length
  | .deviceWidth => .length
  | .deviceHeight => .length
  | .aspectRatio => .ratio
  | .deviceAspectRatio => .ratio
  | .resolution => .resolution
  | .grid => .integer
  | .color => .integer
  | .colorIndex => .integer
  | .monochrome => .integer
  | .orientation => .keyword
  | .scan => .keyword

end Feature

end MediaQuery
