import HvVerified.Base.Hstring

/-!
# `http/httpdef.h`, `http/httpdef.c`: status codes and content types
-/

namespace HvVerified.Http

open Base

/-- `HTTP_STATUS_MAP` -/
def httpStatusMap : List (Nat × String) :=
  [
    (100, "Continue"),
    (101, "Switching Protocols"),
    (102, "Processing"),
    (200, "OK"),
    (201, "Created"),
    (202, "Accepted"),
    (203, "Non-Authoritative Information"),
    (204, "No Content"),
    (205, "Reset Content"),
    (206, "Partial Content"),
    (207, "Multi-Status"),
    (208, "Already Reported"),
    (226, "IM Used"),
    (300, "Multiple Choices"),
    (301, "Moved Permanently"),
    (302, "Found"),
    (303, "See Other"),
    (304, "Not Modified"),
    (305, "Use Proxy"),
    (307, "Temporary Redirect"),
    (308, "Permanent Redirect"),
    (400, "Bad Request"),
    (401, "Unauthorized"),
    (402, "Payment Required"),
    (403, "Forbidden"),
    (404, "Not Found"),
    (405, "Method Not Allowed"),
    (406, "Not Acceptable"),
    (407, "Proxy Authentication Required"),
    (408, "Request Timeout"),
    (409, "Conflict"),
    (410, "Gone"),
    (411, "Length Required"),
    (412, "Precondition Failed"),
    (413, "Payload Too Large"),
    (414, "URI Too Long"),
    (415, "Unsupported Media Type"),
    (416, "Range Not Satisfiable"),
    (417, "Expectation Failed"),
    (421, "Misdirected Request"),
    (422, "Unprocessable Entity"),
    (423, "Locked"),
    (424, "Failed Dependency"),
    (426, "Upgrade Required"),
    (428, "Precondition Required"),
    (429, "Too Many Requests"),
    (431, "Request Header Fields Too Large"),
    (451, "Unavailable For Legal Reasons"),
    (500, "Internal Server Error"),
    (501, "Not Implemented"),
    (502, "Bad Gateway"),
    (503, "Service Unavailable"),
    (504, "Gateway Timeout"),
    (505, "HTTP Version Not Supported"),
    (506, "Variant Also Negotiates"),
    (507, "Insufficient Storage"),
    (508, "Loop Detected"),
    (510, "Not Extended"),
    (511, "Network Authentication Required")
  ]

/-- `http_status_str` -/
def httpStatusStr (status : Nat) : ByteString := ascii ((httpStatusMap.lookup status).getD "<unknown>")

/-- `enum http_content_type`, without the numbers that only separate its groups -/
inductive HttpContentType where
  | none
  | textPlain | textHtml | textCss | textCsv | textMarkdown | textEventStream | applicationJavascript
  | applicationJson | applicationXml | applicationUrlencoded | applicationOctetStream | applicationZip
  | applicationGzip | application7z | applicationRar | applicationPdf | applicationRtf | applicationGrpc
  | applicationWasm | applicationJar | applicationXhtml | applicationAtom | applicationRss | applicationWord
  | applicationExcel | applicationPpt | applicationEot | applicationM3u8 | applicationDocx | applicationXlsx
  | applicationPptx | multipartFormData | imageJpeg | imagePng | imageGif | imageIco | imageBmp | imageSvg
  | imageTiff | imageWebp | videoMp4 | videoFlv | videoM4v | videoMng | videoTs | videoMpeg | videoWebm
  | videoMov | video3gpp | videoAvi | videoWmv | videoAsf | audioMp3 | audioOgg | audioM4a | audioAac
  | audioPcma | audioOpus | fontTtf | fontOtf | fontWoff | fontWoff2
  | undefined
  deriving DecidableEq, Repr

/-- The texts of `HTTP_CONTENT_TYPE_MAP`. -/
def httpContentTypeMap : List (HttpContentType × String) :=
  [
    (.textPlain, "text/plain"),
    (.textHtml, "text/html"),
    (.textCss, "text/css"),
    (.textCsv, "text/csv"),
    (.textMarkdown, "text/markdown"),
    (.textEventStream, "text/event-stream"),
    (.applicationJavascript, "application/javascript"),
    (.applicationJson, "application/json"),
    (.applicationXml, "application/xml"),
    (.applicationUrlencoded, "application/x-www-form-urlencoded"),
    (.applicationOctetStream, "application/octet-stream"),
    (.applicationZip, "application/zip"),
    (.applicationGzip, "application/gzip"),
    (.application7z, "application/x-7z-compressed"),
    (.applicationRar, "application/x-rar-compressed"),
    (.applicationPdf, "application/pdf"),
    (.applicationRtf, "application/rtf"),
    (.applicationGrpc, "application/grpc"),
    (.applicationWasm, "application/wasm"),
    (.applicationJar, "application/java-archive"),
    (.applicationXhtml, "application/xhtml+xml"),
    (.applicationAtom, "application/atom+xml"),
    (.applicationRss, "application/rss+xml"),
    (.applicationWord, "application/msword"),
    (.applicationExcel, "application/vnd.ms-excel"),
    (.applicationPpt, "application/vnd.ms-powerpoint"),
    (.applicationEot, "application/vnd.ms-fontobject"),
    (.applicationM3u8, "application/vnd.apple.mpegurl"),
    (.applicationDocx, "application/vnd.openxmlformats-officedocument.wordprocessingml.document"),
    (.applicationXlsx, "application/vnd.openxmlformats-officedocument.spreadsheetml.sheet"),
    (.applicationPptx, "application/vnd.openxmlformats-officedocument.presentationml.presentation"),
    (.multipartFormData, "multipart/form-data"),
    (.imageJpeg, "image/jpeg"),
    (.imagePng, "image/png"),
    (.imageGif, "image/gif"),
    (.imageIco, "image/x-icon"),
    (.imageBmp, "image/bmp"),
    (.imageSvg, "image/svg+xml"),
    (.imageTiff, "image/tiff"),
    (.imageWebp, "image/webp"),
    (.videoMp4, "video/mp4"),
    (.videoFlv, "video/x-flv"),
    (.videoM4v, "video/x-m4v"),
    (.videoMng, "video/x-mng"),
    (.videoTs, "video/mp2t"),
    (.videoMpeg, "video/mpeg"),
    (.videoWebm, "video/webm"),
    (.videoMov, "video/quicktime"),
    (.video3gpp, "video/3gpp"),
    (.videoAvi, "video/x-msvideo"),
    (.videoWmv, "video/x-ms-wmv"),
    (.videoAsf, "video/x-ms-asf"),
    (.audioMp3, "audio/mpeg"),
    (.audioOgg, "audio/ogg"),
    (.audioM4a, "audio/x-m4a"),
    (.audioAac, "audio/aac"),
    (.audioPcma, "audio/PCMA"),
    (.audioOpus, "audio/opus"),
    (.fontTtf, "font/ttf"),
    (.fontOtf, "font/otf"),
    (.fontWoff, "font/woff"),
    (.fontWoff2, "font/woff2")
  ]

/-- `http_content_type_str` -/
def httpContentTypeStr (type : HttpContentType) : ByteString :=
  ascii ((httpContentTypeMap.lookup type).getD "<unknown>")

/-- `http_content_type_enum`: the first type whose text is a beginning of `str`. -/
def httpContentTypeEnum (str : ByteString) : HttpContentType :=
  if cStr str = [] then .none
  else ((httpContentTypeMap.find? fun entry => (ascii entry.2).isPrefixOf (cStr str)).map Prod.fst).getD .undefined

/-- The suffixes of `HTTP_CONTENT_TYPE_MAP`. -/
def httpContentTypeSuffixMap : List (HttpContentType × String) :=
  [
    (.textPlain, "txt"),
    (.textHtml, "html"),
    (.textCss, "css"),
    (.textCsv, "csv"),
    (.textMarkdown, "md"),
    (.textEventStream, "sse"),
    (.applicationJavascript, "js"),
    (.applicationJson, "json"),
    (.applicationXml, "xml"),
    (.applicationUrlencoded, "kv"),
    (.applicationOctetStream, "bin"),
    (.applicationZip, "zip"),
    (.applicationGzip, "gzip"),
    (.application7z, "7z"),
    (.applicationRar, "rar"),
    (.applicationPdf, "pdf"),
    (.applicationRtf, "rtf"),
    (.applicationGrpc, "grpc"),
    (.applicationWasm, "wasm"),
    (.applicationJar, "jar"),
    (.applicationXhtml, "xhtml"),
    (.applicationAtom, "atom"),
    (.applicationRss, "rss"),
    (.applicationWord, "doc"),
    (.applicationExcel, "xls"),
    (.applicationPpt, "ppt"),
    (.applicationEot, "eot"),
    (.applicationM3u8, "m3u8"),
    (.applicationDocx, "docx"),
    (.applicationXlsx, "xlsx"),
    (.applicationPptx, "pptx"),
    (.multipartFormData, "mp"),
    (.imageJpeg, "jpg"),
    (.imagePng, "png"),
    (.imageGif, "gif"),
    (.imageIco, "ico"),
    (.imageBmp, "bmp"),
    (.imageSvg, "svg"),
    (.imageTiff, "tiff"),
    (.imageWebp, "webp"),
    (.videoMp4, "mp4"),
    (.videoFlv, "flv"),
    (.videoM4v, "m4v"),
    (.videoMng, "mng"),
    (.videoTs, "ts"),
    (.videoMpeg, "mpeg"),
    (.videoWebm, "webm"),
    (.videoMov, "mov"),
    (.video3gpp, "3gpp"),
    (.videoAvi, "avi"),
    (.videoWmv, "wmv"),
    (.videoAsf, "asf"),
    (.audioMp3, "mp3"),
    (.audioOgg, "ogg"),
    (.audioM4a, "m4a"),
    (.audioAac, "aac"),
    (.audioPcma, "pcma"),
    (.audioOpus, "opus"),
    (.fontTtf, "ttf"),
    (.fontOtf, "otf"),
    (.fontWoff, "woff"),
    (.fontWoff2, "woff2")
  ]

/-- `http_content_type_enum_by_suffix` -/
def httpContentTypeEnumBySuffix (str : ByteString) : HttpContentType :=
  if cStr str = [] then .none
  else ((httpContentTypeSuffixMap.find? fun entry => ascii entry.2 = cStr str).map Prod.fst).getD .undefined

/-- `http_content_type_str_by_suffix` -/
def httpContentTypeStrBySuffix (str : ByteString) : ByteString :=
  if cStr str = [] then []
  else ((httpContentTypeSuffixMap.find? fun entry => ascii entry.2 = cStr str).map
    fun entry => httpContentTypeStr entry.1).getD []

/-- `HTTP_GET` -/
def httpGet : Nat := 1

/-- `HTTP_HEAD` -/
def httpHead : Nat := 2

end HvVerified.Http
